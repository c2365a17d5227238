import Coursework.Keyed
import Coursework.Decimal.Shortest

namespace Coursework

/-- A number as it is written: a whole number, a decimal `digits * 10 ^ exponent` that stands for
the binary number next to it, or a value outside of these. -/
inductive Json.Number
  | whole (n : Int)
  | fraction (negative : Bool) (digits : Nat) (exponent : Int)
  | infinite (negative : Bool)
  | undefined
  deriving DecidableEq, Repr

inductive Json
  | null
  | bool (b : Bool)
  | number (n : Json.Number)
  | text (s : Text)
  | list (items : List Json)
  | object (fields : List (Text × Json))
  deriving Repr

namespace Json

/-- The first of the characters that stand for halves of pairs, from a block for private use. -/
def firstHalf : Nat := 0xFA800

def halfChar (u : Nat) : Char := Char.ofNat (firstHalf + (u - 0xD800))

instance : Inhabited Json := ⟨.null⟩

def Number.nearest (digits : Nat) (exponent : Int) : Float :=
  if exponent < 0 then Float.ofScientific digits true exponent.natAbs
  else Float.ofScientific digits false exponent.toNat

def Number.isZero : Number → Bool
  | .whole n => n == 0
  | .fraction _ digits exponent => nearest digits exponent == 0
  | .infinite _ => false
  | .undefined => false

structure Number.Wording where
  infinity : Text
  undefined : Text

def Number.textWith (w : Wording) : Number → Text
  | .whole n => Text.integer n
  | .fraction negative digits exponent =>
    let x := nearest digits exponent
    let sign : Text := if negative then "-" else []
    if x == 0 then sign ++ "0.0"
    else if x.isInf then sign ++ w.infinity
    else sign ++ (Decimal.shortest (.ofBits x.toBits.toNat)).text
  | .infinite negative => if negative then ['-'] ++ w.infinity else w.infinity
  | .undefined => w.undefined

def Number.text (n : Number) : Text := n.textWith ⟨"Infinity", "NaN"⟩

def text? : Json → Option Text
  | .text s => some s
  | _ => none

def list? : Json → Option (List Json)
  | .list xs => some xs
  | _ => none

def object? : Json → Option (Fields Json)
  | .object fs => some fs
  | _ => none

def bool? : Json → Option Bool
  | .bool b => some b
  | _ => none

def whole? : Json → Option Int
  | .number (.whole n) => some n
  | _ => none

def isVoid : Json → Bool
  | .null => true
  | .bool b => !b
  | .number n => n.isZero
  | .text s => s.isEmpty
  | .list xs => xs.isEmpty
  | .object fs => fs.isEmpty

def parts? : Json → Option (List Json)
  | .text s => some (s.map fun c => .text [c])
  | .list xs => some xs
  | .object fs => some (fs.map fun f => .text f.1)
  | _ => none

def field? (j : Json) (key : Text) : Option Json :=
  j.object?.bind fun fs => Keyed.get? fs key

end Json

end Coursework
