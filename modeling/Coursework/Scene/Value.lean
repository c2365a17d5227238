import Coursework.Text.Blank

namespace Coursework.Scene

inductive Mode
  | plain
  | quoted
  | escaped
  deriving DecidableEq, Repr

structure Nesting where
  depth : Int := 0
  mode : Mode := .plain
  deriving DecidableEq, Repr

def isOpening (c : Char) : Bool := c == '(' || c == '[' || c == '{'

def isClosing (c : Char) : Bool := c == ')' || c == ']' || c == '}'

namespace Nesting

def step (n : Nesting) (c : Char) : Nesting :=
  match n.mode with
  | .escaped => ⟨n.depth, .quoted⟩
  | .quoted =>
    if c = '\\' then ⟨n.depth, .escaped⟩
    else if c = '\x22' then ⟨n.depth, .plain⟩
    else n
  | .plain =>
    if c = '\x22' then ⟨n.depth, .quoted⟩
    else if isOpening c then ⟨n.depth + 1, .plain⟩
    else if isClosing c then ⟨n.depth - 1, .plain⟩
    else n

def after (n : Nesting) (s : Text) : Nesting := s.foldl step n

def closed (n : Nesting) : Bool := n.depth ≤ 0 && n.mode == .plain

end Nesting

def balanced (s : Text) : Bool := ((Nesting.mk 0 .plain).after s).closed

def cutValueFrom (n : Nesting) : Text → Text × Text
  | [] => ([], [])
  | c :: s =>
    if Text.isBlank c && n.closed then ([], c :: s)
    else ((c :: (cutValueFrom (n.step c) s).1), (cutValueFrom (n.step c) s).2)

def cutValue (s : Text) : Text × Text := cutValueFrom {} s

theorem cutValueFrom_append (n : Nesting) (s : Text) :
    (cutValueFrom n s).1 ++ (cutValueFrom n s).2 = s := by
  induction s generalizing n with
  | nil => rfl
  | cons c s ih => by_cases h : Text.isBlank c && n.closed <;> simp [cutValueFrom, h, ih]

theorem cutValue_append (s : Text) : (cutValue s).1 ++ (cutValue s).2 = s :=
  cutValueFrom_append _ s

theorem length_cutValue_le (s : Text) : (cutValue s).2.length ≤ s.length := by
  have h := congrArg List.length (cutValue_append s)
  simp only [List.length_append] at h
  omega

def valueEnd (s : Text) (start : Nat) : Nat :=
  if start ≤ s.length then start + (cutValue (s.drop start)).1.length else s.length

/-- The same for an index that may count from the end, which must not lie in front of the text. From
such an index on the text is read to its end and then once more as a whole. -/
def valueEndFrom (s : Text) (start : Int) : Option Int :=
  if 0 ≤ start then some (valueEnd s start.toNat)
  else if start.natAbs ≤ s.length then
    some (start + (cutValue (s.drop (s.length - start.natAbs) ++ s)).1.length)
  else none

def quote (s : Text) : Text :=
  ['\x22'] ++
    Text.replace ['\x22'] ['\\', '\x22'] (Text.replace ['\\'] ['\\', '\\'] s) ++ ['\x22']

def unquote (s : Text) : Text :=
  if 2 ≤ s.length ∧ s.head? = some '\x22' ∧ s.getLast? = some '\x22' then
    Text.replace ['\\', '\\'] ['\\']
      (Text.replace ['\\', '\x22'] ['\x22'] (s.drop 1).dropLast)
  else s

def stringInside? : Text → Option Text
  | [] => none
  | c :: s =>
    if c = '\x22' then some []
    else if c = '\\' then
      match s with
      | [] => none
      | d :: r => if d = '\n' then none else (stringInside? r).map fun w => c :: d :: w
    else (stringInside? s).map (c :: ·)

def stringsFrom : Nat → Text → List Text
  | _, [] => []
  | covered + 1, _ :: s => stringsFrom covered s
  | 0, c :: s =>
    if c = '\x22' then
      match stringInside? s with
      | some w => w :: stringsFrom (w.length + 1) s
      | none => stringsFrom 0 s
    else stringsFrom 0 s

def readStrings (s : Text) : List Text :=
  (stringsFrom 0 s).map fun w => unquote (['\x22'] ++ w ++ ['\x22'])

def writeStrings (ws : List Text) : Text :=
  ['['] ++ Text.join [',', ' '] (ws.map quote) ++ [']']

end Coursework.Scene
