import Coursework.Keyed
import Coursework.Scene.Value
import Coursework.Text.Literal
import Coursework.Text.Word

namespace Coursework.Scene

structure Section where
  tag : Text
  attributes : Fields Text := []
  properties : Fields Text := []
  deriving DecidableEq, Repr

inductive Section.Fault
  | contentBeforeHeader (line : Nat)
  | unexpectedLine (line : Nat) (content : Text)
  | malformedHeader (line : Nat) (attributes : Text)
  | unterminatedValue (key tag : Text)
  deriving DecidableEq, Repr

def malformedHeaderMessage (place attributes : Text) : Text :=
  place ++ ": malformed section header attributes " ++ Text.literal attributes

def Section.Fault.message (source : Text) : Section.Fault → Text
  | .contentBeforeHeader n => source ++ ":" ++ Text.decimal n ++ ": content before the first section"
  | .unexpectedLine n l =>
    source ++ ":" ++ Text.decimal n ++ ": unexpected line " ++ Text.literal l
  | .malformedHeader n a => malformedHeaderMessage (source ++ ":" ++ Text.decimal n) a
  | .unterminatedValue key tag =>
    source ++ ": unterminated value for '" ++ key ++ "' in [" ++ tag ++ "]"

namespace Section

def attributeText (a : Text × Text) : Text := [' '] ++ a.1 ++ ['='] ++ a.2

def header (s : Section) : Text := ['['] ++ s.tag ++ s.attributes.flatMap attributeText ++ [']']

def propertyText (p : Text × Text) : Text := p.1 ++ [' ', '=', ' '] ++ p.2

def text (s : Section) : Text :=
  Text.join ['\n'] (s.header :: s.properties.map propertyText)

def splitAttributes (s : Text) : Option (List (Text × Text)) :=
  match _h : s.dropWhile Text.isBlank with
  | [] => some []
  | c :: r =>
    match _h' : (c :: r).dropWhile (· != '=') with
    | [] => none
    | _ :: v =>
      (splitAttributes (cutValue v).2).map
        (((c :: r).takeWhile (· != '='), (cutValue v).1) :: ·)
termination_by s.length
decreasing_by
  have h1 := length_cutValue_le v
  have h2 := (List.dropWhile_sublist (l := s) Text.isBlank).length_le
  have h3 := (List.dropWhile_sublist (l := c :: r) (· != '=')).length_le
  rw [_h] at h2
  rw [_h'] at h3
  simp only [List.length_cons] at h2 h3
  omega

def readAttributes (s : Text) : Option (Fields Text) := (splitAttributes s).map Keyed.ofList

def startsTag (c : Char) : Bool := c.isAlpha || c == '_'

def header? : Text → Option (Text × Text)
  | '[' :: c :: s =>
    if startsTag c then
      let rest := Text.trimRight ((c :: s).dropWhile Text.isWord)
      if rest.getLast? = some ']' then some ((c :: s).takeWhile Text.isWord, rest.dropLast)
      else none
    else none
  | _ => none

def inKey (c : Char) : Bool := !Text.isBlank c && c != '='

def property? (line : Text) : Option (Text × Text) :=
  match line with
  | [] => none
  | c :: _ =>
    if inKey c && c != '[' then
      match line.dropWhile inKey with
      | ' ' :: '=' :: ' ' :: v => some (line.takeWhile inKey, v)
      | _ => none
    else none

structure Progress where
  finished : List Section := []
  current : Option Section := none
  key : Option Text := none

def Progress.all (p : Progress) : List Section := p.current.toList ++ p.finished

def Progress.incomplete? (p : Progress) : Option (Section × Text × Text) := do
  let s ← p.current
  let key ← p.key
  let value ← Keyed.get? s.properties key
  if balanced value then none else some (s, key, value)

def Progress.setProperty (p : Progress) (s : Section) (key value : Text) : Progress :=
  ⟨p.finished, some { s with properties := Keyed.set s.properties key value }, some key⟩

def Progress.step (p : Progress) (number : Nat) (line : Text) : Except Fault Progress :=
  match p.incomplete? with
  | some (s, key, value) => .ok (p.setProperty s key (value ++ ['\n'] ++ line))
  | none =>
    match header? line with
    | some (tag, attributes) =>
      match readAttributes attributes with
      | some fields => .ok ⟨p.all, some { tag := tag, attributes := fields }, none⟩
      | none => .error (.malformedHeader number attributes)
    | none =>
      match p.current with
      | none => if Text.blank line then .ok p else .error (.contentBeforeHeader number)
      | some s =>
        match property? line with
        | some (key, value) => .ok (p.setProperty s key value)
        | none => if Text.blank line then .ok p else .error (.unexpectedLine number line)

def readLines (p : Progress) (number : Nat) : List Text → Except Fault Progress
  | [] => .ok p
  | l :: ls => do readLines (← p.step number l) (number + 1) ls

def unterminated? (s : Section) : Option Fault :=
  (s.properties.find? fun p => !balanced p.2).map fun p => .unterminatedValue p.1 s.tag

def readAll (s : Text) : Except Fault (List Section) := do
  let p ← readLines {} 1 (Text.lines s)
  let sections := p.all.reverse
  match sections.findSome? unterminated? with
  | some e => .error e
  | none => .ok sections

end Section

end Coursework.Scene
