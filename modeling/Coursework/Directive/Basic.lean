import Coursework.Text.Blank

/-!
Directives: what a comment at the end of a solution line makes of the line in the practice.

A line without code before the marker, or without the marker, stays as it is. An empty comment
takes the line away, any other comment stands in its place, and shift symbols in front of the
comment move it to the right or to the left.
-/

namespace Coursework

inductive Directive
  | keep
  | delete
  | replace (indent : Int) (text : Text)
  | shift (indent : Int) (text : Text)
  deriving DecidableEq, Repr

namespace Directive

structure Marks where
  marker : Text := ['#']
  indentSymbol : Text := ['>']
  dedentSymbol : Text := ['<']
  unit : Text := ['\t']
  deriving DecidableEq, Repr

structure Parts where
  code : Text
  comment : Text
  deriving DecidableEq, Repr

structure Record where
  indent : Nat
  code : Text
  comment : Option Text
  deriving DecidableEq, Repr

def commentAt (marker s : Text) : Option Text := (Text.after? marker s).bind Text.oneLine?

def commentAfterBlanks (marker : Text) : Text → Option Text
  | [] => commentAt marker []
  | c :: s =>
    match if Text.isBlank c then commentAfterBlanks marker s else none with
    | some a => some a
    | none => commentAt marker (c :: s)

/-- The shortest code that blanks, the marker and a comment can follow. -/
def splitCode (marker : Text) : Text → Option Parts
  | [] => (commentAfterBlanks marker []).map (⟨[], ·⟩)
  | c :: s =>
    match commentAfterBlanks marker (c :: s) with
    | some a => some ⟨[], a⟩
    | none =>
      if c = '\n' then none else (splitCode marker s).map fun p => ⟨c :: p.code, p.comment⟩

def isIndent (c : Char) : Bool := c == '\t' || c == ' '

def startsCode (marker : Text) (c : Char) : Bool := !Text.isBlank c && !marker.contains c

def Marks.split (m : Marks) (line : Text) : Option Parts :=
  match line.dropWhile isIndent with
  | [] => none
  | c :: s =>
    if startsCode m.marker c then
      (splitCode m.marker s).map fun p => ⟨c :: p.code, p.comment⟩
    else none

def Marks.indentOf (m : Marks) (line : Text) : Option Nat :=
  if m.unit = [] then none else some (Text.leadingCopies m.unit line)

def Marks.recordOf (m : Marks) (line : Text) : Option Record :=
  (m.indentOf line).map fun n =>
    match m.split line with
    | some p => ⟨n, p.code, some p.comment⟩
    | none => ⟨n, Text.trim line, none⟩

def Marks.isShift (m : Marks) (c : Char) : Bool :=
  m.indentSymbol.contains c || m.dedentSymbol.contains c

def Marks.usable (m : Marks) : Bool := m.indentSymbol != [] || m.dedentSymbol != []

def Marks.shiftBy (m : Marks) (c : Char) : Int := if m.indentSymbol = [c] then 1 else -1

def Marks.totalShift (m : Marks) (symbols : Text) : Int :=
  symbols.foldl (fun n c => n + m.shiftBy c) 0

def dropSpace : Text → Text
  | ' ' :: s => s
  | s => s

def Marks.ofComment (m : Marks) (indent : Int) (comment : Text) : Directive :=
  let a := dropSpace comment
  if Text.blank a then .delete
  else
    let symbols := a.takeWhile m.isShift
    if symbols = [] then .replace indent a
    else .shift (max (indent + m.totalShift symbols) 0) (Text.trimLeft (a.dropWhile m.isShift))

def Marks.directiveAt (m : Marks) (indent : Int) (line : Text) : Directive :=
  match m.split line with
  | some p => m.ofComment indent p.comment
  | none => .keep

def Marks.directiveOf (m : Marks) (line : Text) (indent : Option Int) : Option Directive :=
  match indent with
  | some n => some (m.directiveAt n line)
  | none => (m.indentOf line).map fun n => m.directiveAt n line

def Marks.render (m : Marks) (line : Text) : Directive → Option Text
  | .keep => some line
  | .delete => none
  | .replace indent text => some (Text.copies m.unit indent.toNat ++ text)
  | .shift indent text => some (Text.copies m.unit indent.toNat ++ text)

def Marks.practiceLines (m : Marks) : List Text → Option (List Text)
  | [] => some []
  | l :: ls => do
    let d ← m.directiveOf l none
    let rest ← m.practiceLines ls
    some ((m.render l d).toList ++ rest)

end Directive

end Coursework
