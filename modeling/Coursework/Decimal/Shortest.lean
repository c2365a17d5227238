import Coursework.Text.Basic

namespace Coursework.Decimal

/-- A positive binary number `significand * 2 ^ exponent`. The gap to the next smaller number is
half the gap to the next larger one where `narrow` holds. -/
structure Binary where
  significand : Nat
  exponent : Int
  narrow : Bool

structure Digits where
  digits : Text
  point : Int
  deriving DecidableEq, Repr

def binade : Nat := 0x10000000000000

def Binary.ofBits (bits : Nat) : Binary :=
  let fraction := bits % binade
  let biased := bits / binade % 2048
  if biased = 0 then ⟨fraction, -1074, false⟩
  else ⟨binade + fraction, Int.ofNat biased - 1075, fraction == 0 && biased != 1⟩

structure Interval where
  low : Nat
  value : Nat
  high : Nat
  denominator : Nat
  closed : Bool

def Binary.interval (b : Binary) : Interval :=
  let unit := b.exponent - 2
  let scale := Nat.pow 2 unit.toNat
  ⟨(4 * b.significand - if b.narrow then 1 else 2) * scale, 4 * b.significand * scale,
    (4 * b.significand + 2) * scale, Nat.pow 2 (-unit).toNat, b.significand % 2 == 0⟩

def Interval.contains (i : Interval) (n up down : Nat) : Bool :=
  let x := n * Nat.pow 10 up * i.denominator
  let low := i.low * Nat.pow 10 down
  let high := i.high * Nat.pow 10 down
  if i.closed then low ≤ x && x ≤ high else low < x && x < high

def Interval.magnitude (i : Interval) : Int :=
  ((Text.decimal (i.value * Nat.pow 10 400 / i.denominator)).length : Int) - 401

def Interval.point? (i : Interval) (count : Nat) : Option Nat :=
  let unit := i.magnitude - count + 1
  let up := unit.toNat
  let down := (-unit).toNat
  let scaled := i.value * Nat.pow 10 down
  let step := i.denominator * Nat.pow 10 up
  let below := scaled / step
  let lower := i.contains below up down
  let upper := i.contains (below + 1) up down
  if lower && upper then
    let twice := 2 * (scaled % step)
    some (if twice < step || twice == step && below % 2 == 0 then below else below + 1)
  else if lower then some below
  else if upper then some (below + 1)
  else none

def Interval.search (i : Interval) : Nat → Nat → Digits
  | 0, _ => ⟨[], 0⟩
  | more + 1, count =>
    match i.point? count with
    | some n =>
      let ds := Text.decimal n
      ⟨Text.dropEndWhile (· == '0') ds, i.magnitude - count + 1 + ds.length⟩
    | none => search i more (count + 1)

def shortest (b : Binary) : Digits := b.interval.search 17 1

def Digits.text (d : Digits) : Text :=
  if -4 < d.point ∧ d.point ≤ 16 then
    let n := d.point.toNat
    if d.point ≤ 0 then "0." ++ List.replicate (-d.point).toNat '0' ++ d.digits
    else if d.digits.length ≤ n then
      d.digits ++ List.replicate (n - d.digits.length) '0' ++ ".0"
    else d.digits.take n ++ '.' :: d.digits.drop n
  else
    let power := d.point - 1
    let ds := Text.decimal power.natAbs
    let tail := (if power < 0 then '-' else '+') :: List.replicate (2 - ds.length) '0' ++ ds
    d.digits.take 1 ++ (if d.digits.length ≤ 1 then [] else '.' :: d.digits.drop 1) ++ 'e' :: tail

end Coursework.Decimal
