import Coursework.Text.Basic

/-!
Glob patterns: `*` stands for any text, `?` for any character, and brackets hold a set of
characters, with ranges, that an exclamation mark in front negates.

The separator of paths and the line feed are ordinary characters.
-/

namespace Coursework

inductive Glob.Item
  | one (c : Char)
  | range (low high : Char)
  deriving DecidableEq, Repr

inductive Glob.Piece
  | anyText
  | anyChar
  | exactly (c : Char)
  | oneOf (negated : Bool) (items : List Glob.Item)
  deriving DecidableEq, Repr

abbrev Glob := List Glob.Piece

namespace Glob

def Item.contains : Item → Char → Bool
  | .one d, c => c == d
  | .range low high, c => low ≤ c && c ≤ high

def suffixes {α : Type} : List α → List (List α)
  | [] => [[]]
  | x :: xs => (x :: xs) :: suffixes xs

def Piece.admits : Piece → Char → Bool
  | .anyText, _ => false
  | .anyChar, _ => true
  | .exactly d, c => c == d
  | .oneOf negated items, c => items.any (·.contains c) != negated

def anyFrom : List Bool → List Bool
  | [] => []
  | b :: bs =>
    let rest := anyFrom bs
    (b || rest.headD false) :: rest

def advance (piece : Piece) : Text → List Bool → List Bool
  | c :: s, _ :: b :: bs => (piece.admits c && b) :: advance piece s (b :: bs)
  | _, _ => [false]

def row : Glob → Text → List Bool
  | [], s => (suffixes s).map List.isEmpty
  | .anyText :: p, s => anyFrom (row p s)
  | piece :: p, s => advance piece s (row p s)

/-- The texts between the hyphens that may stand for a range. The first hyphen is looked for
after `skip` characters, each later one two characters after the character that follows a hyphen. -/
def chunksFrom : Nat → Text → List Text
  | _, [] => [[]]
  | 0, c :: s =>
    if c = '-' then [] :: chunksFrom 2 s
    else match chunksFrom 0 s with
      | [] => [[c]]
      | w :: ws => (c :: w) :: ws
  | skip + 1, c :: s =>
    match chunksFrom skip s with
    | [] => [[c]]
    | w :: ws => (c :: w) :: ws

def closeChunks : List Text → List Text
  | [w, []] => [w ++ ['-']]
  | w :: ws => w :: closeChunks ws
  | [] => []

def mergeEmptyRange (left : Text) : List Text → List Text
  | [] => [left]
  | right :: rest =>
    match left.getLast?, right with
    | some low, high :: more => if high < low then (left.dropLast ++ more) :: rest
        else left :: right :: rest
    | _, _ => left :: right :: rest

def dropEmptyRanges (chunks : List Text) : List Text :=
  chunks.foldr mergeEmptyRange []

inductive SetToken
  | char (c : Char)
  | hyphen
  deriving DecidableEq

def setTokens : List Text → List SetToken
  | [] => []
  | [w] => w.map .char
  | w :: ws => w.map .char ++ .hyphen :: setTokens ws

def items : List SetToken → List Item
  | [] => []
  | .char low :: .hyphen :: .char high :: ts => .range low high :: items ts
  | .char c :: ts => .one c :: items ts
  | .hyphen :: ts => .one '-' :: items ts

def bracketPiece (s : Text) : Piece :=
  let chunks :=
    if s.contains '-' then
      dropEmptyRanges (closeChunks (chunksFrom (if s.head? = some '!' then 2 else 1) s))
    else [s]
  match setTokens chunks with
  | .char '!' :: ts => .oneOf true (items ts)
  | ts => .oneOf false (items ts)

def bracket? (s : Text) : Option (Text × Text) :=
  let (bang, s) := match s with
    | '!' :: s => (['!'], s)
    | s => ([], s)
  let (first, s) := match s with
    | ']' :: s => ([']'], s)
    | s => ([], s)
  match s.dropWhile (· != ']') with
  | [] => none
  | _ :: rest => some (bang ++ first ++ s.takeWhile (· != ']'), rest)

def ofTextFrom : Nat → Text → Glob
  | _, [] => []
  | covered + 1, _ :: s => ofTextFrom covered s
  | 0, c :: s =>
    if c = '*' then .anyText :: ofTextFrom 0 s
    else if c = '?' then .anyChar :: ofTextFrom 0 s
    else if c = '[' then
      match bracket? s with
      | some (content, _) => bracketPiece content :: ofTextFrom (content.length + 1) s
      | none => .exactly '[' :: ofTextFrom 0 s
    else .exactly c :: ofTextFrom 0 s

def ofText (s : Text) : Glob := ofTextFrom 0 s

def fits (pattern s : Text) : Bool := (row (ofText pattern) s).headD false

end Glob

end Coursework
