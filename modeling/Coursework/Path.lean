import Coursework.Text.LowerCase
import Coursework.Text.Literal

namespace Coursework

/-- Where a path starts: where the reader stands, at the root, or at the root that two slashes
name. -/
inductive Path.Anchor
  | here
  | root
  | doubleRoot
  deriving DecidableEq, Repr

structure Path where
  anchor : Path.Anchor := .here
  parts : List Text := []
  deriving DecidableEq, Repr

namespace Path

def Anchor.text : Anchor → Text
  | .here => ""
  | .root => "/"
  | .doubleRoot => "//"

def Anchor.ofText : Text → Anchor
  | '/' :: '/' :: '/' :: _ => .root
  | '/' :: '/' :: _ => .doubleRoot
  | '/' :: _ => .root
  | _ => .here

def IsPart (w : Text) : Prop := w ≠ [] ∧ w ≠ ['.'] ∧ '/' ∉ w

def partsOf (s : Text) : List Text :=
  (Text.splitOn '/' s).filter fun w => w != [] && w != ['.']

def ofText (s : Text) : Path := ⟨Anchor.ofText s, partsOf s⟩

instance : Coe Text Path := ⟨ofText⟩

def bareText (p : Path) : Text := p.anchor.text ++ Text.join ['/'] p.parts

def text (p : Path) : Text := if p.bareText = [] then ['.'] else p.bareText

def append (p q : Path) : Path :=
  match q.anchor with
  | .here => ⟨p.anchor, p.parts ++ q.parts⟩
  | _ => q

instance : Append Path := ⟨append⟩

def hasNull (p : Path) : Bool := p.parts.any fun w => w.contains '\x00'

def child (p : Path) (name : Text) : Path := ⟨p.anchor, p.parts ++ [name]⟩

def name (p : Path) : Text := p.parts.getLast?.getD []

def parent (p : Path) : Path := ⟨p.anchor, p.parts.dropLast⟩

def ancestors (p : Path) : List Path :=
  (List.range p.parts.length).reverse.map fun n => ⟨p.anchor, p.parts.take n⟩

def splitName (w : Text) : Text × Text :=
  let back := w.reverse
  let extension := (back.takeWhile (· != '.')).reverse
  match back.dropWhile (· != '.') with
  | [] => (w, [])
  | _ :: stem =>
    if stem.isEmpty || extension.isEmpty then (w, []) else (stem.reverse, '.' :: extension)

def stem (p : Path) : Text := (splitName p.name).1

def suffix (p : Path) : Text := (splitName p.name).2

def extension (p : Path) : Text := Text.lower p.suffix

structure NotBelow where
  path : Path
  base : Path
  deriving DecidableEq, Repr

def NotBelow.message (e : NotBelow) : Text :=
  Text.literal e.path.text ++ " is not in the subpath of " ++ Text.literal e.base.bareText ++
    " OR one path is relative and the other is absolute."

def below? : List Text → List Text → Option (List Text)
  | [], ps => some ps
  | _ :: _, [] => none
  | b :: bs, p :: ps => if b = p then below? bs ps else none

theorem below?_eq_some_iff {bs ps rs : List Text} : below? bs ps = some rs ↔ ps = bs ++ rs := by
  induction bs generalizing ps with
  | nil => simp [below?]
  | cons b bs ih =>
    cases ps with
    | nil => simp [below?]
    | cons p ps =>
      by_cases h : b = p
      · simp [below?, h, ih]
      · simp [below?, h, Ne.symm h]

def relativeTo (p base : Path) : Except NotBelow Path :=
  if p.anchor = base.anchor then
    match below? base.parts p.parts with
    | some rest => .ok ⟨.here, rest⟩
    | none => .error ⟨p, base⟩
  else .error ⟨p, base⟩

def le (p q : Path) : Bool := decide (¬q.parts < p.parts)

def normalParts (ps : List Text) : List Text :=
  (ps.foldl (fun seen w => if w = ['.', '.'] then seen.drop 1 else w :: seen) []).reverse

def absolute (place : List Text) (p : Path) : Path :=
  match p.anchor with
  | .here => ⟨.root, normalParts (place ++ p.parts)⟩
  | anchor => ⟨anchor, normalParts p.parts⟩

def resolved (place : List Text) (p : Path) : Path := ⟨.root, (p.absolute place).parts⟩

end Path

end Coursework
