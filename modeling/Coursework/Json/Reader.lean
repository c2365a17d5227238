import Coursework.Json.Basic

/-!
Reading JSON text. Blanks may stand around every value, control characters may not stand in
strings, and of a name that an object repeats the first place and the last value count.

Lists and objects may stand in each other only so deep, and a whole number may have only so many
digits. Text that goes beyond either is no malformed text.
-/

namespace Coursework.Json

inductive Fault
  | malformed
  | tooDeep
  | tooLong (digits : Nat)
  deriving DecidableEq, Repr

def maxDepth : Nat := 984

def maxDigits : Nat := 4300

def isSpace (c : Char) : Bool := c == ' ' || c == '\t' || c == '\n' || c == '\r'

def skipSpace (s : Text) : Text := s.dropWhile isSpace

def hexValue? (c : Char) : Option Nat :=
  if '0' ≤ c ∧ c ≤ '9' then some (c.toNat - 48)
  else if 'a' ≤ c ∧ c ≤ 'f' then some (c.toNat - 87)
  else if 'A' ≤ c ∧ c ≤ 'F' then some (c.toNat - 55)
  else none

def unit? : Text → Option (Nat × Text)
  | a :: b :: c :: d :: s => do
    let a ← hexValue? a
    let b ← hexValue? b
    let c ← hexValue? c
    let d ← hexValue? d
    some (((a * 16 + b) * 16 + c) * 16 + d, s)
  | _ => none

/-- A character written by its code unit, or by two for one beyond the first plane. A unit that
is only half of a pair is kept as a character of its own. -/
def codePoint? (s : Text) : Option (Char × Text) := do
  let (high, s) ← unit? s
  if 0xD800 ≤ high ∧ high < 0xDC00 then
    match s with
    | '\\' :: 'u' :: r =>
      match unit? r with
      | some (low, rest) =>
        if 0xDC00 ≤ low ∧ low < 0xE000 then
          some (Char.ofNat (0x10000 + (high - 0xD800) * 0x400 + (low - 0xDC00)), rest)
        else some (halfChar high, s)
      | none => some (halfChar high, s)
    | _ => some (halfChar high, s)
  else if 0xDC00 ≤ high ∧ high < 0xE000 then some (halfChar high, s)
  else some (Char.ofNat high, s)

def escape? : Text → Option (Char × Text)
  | '\x22' :: s => some ('\x22', s)
  | '\\' :: s => some ('\\', s)
  | '/' :: s => some ('/', s)
  | 'b' :: s => some ('\x08', s)
  | 'f' :: s => some ('\x0c', s)
  | 'n' :: s => some ('\n', s)
  | 'r' :: s => some ('\r', s)
  | 't' :: s => some ('\t', s)
  | 'u' :: s => codePoint? s
  | _ => none

def stringBody? : Nat → Text → Option (Text × Text)
  | 0, _ => none
  | _, [] => none
  | fuel + 1, c :: s =>
    if c = '\x22' then some ([], s)
    else if c = '\\' then do
      let (d, s) ← escape? s
      let (w, s) ← stringBody? fuel s
      some (d :: w, s)
    else if c.toNat < 32 then none
    else do
      let (w, s) ← stringBody? fuel s
      some (c :: w, s)

def string? (s : Text) : Option (Text × Text) :=
  -- each step takes a character at least
  stringBody? (s.length + 1) s

def digits (s : Text) : Text × Text := (s.takeWhile Char.isDigit, s.dropWhile Char.isDigit)

def natural (ds : Text) : Nat := ds.foldl (fun n c => n * 10 + (c.toNat - 48)) 0

def fraction (s : Text) : Text × Text :=
  match s with
  | '.' :: r => if (digits r).1 = [] then ([], s) else digits r
  | _ => ([], s)

def power? (s : Text) : Option Int × Text :=
  match s with
  | [] => (none, s)
  | e :: r =>
    if e = 'e' ∨ e = 'E' then
      let (negative, r) := match r with
        | '-' :: r => (true, r)
        | '+' :: r => (false, r)
        | r => (false, r)
      let (ds, rest) := digits r
      if ds = [] then (none, s)
      else (some (if negative then -(natural ds : Int) else natural ds), rest)
    else (none, s)

def readNumber (negative : Bool) (s : Text) : Except Fault (Number × Text) :=
  let (ds, r) := match s with
    | '0' :: r => (['0'], r)
    | _ => digits s
  if ds = [] then .error .malformed
  else
    let (places, r) := fraction r
    let (power, r) := power? r
    if places = [] ∧ power = none then
      if ds.length ≤ maxDigits then
        .ok (.whole (if negative then -(natural ds : Int) else natural ds), r)
      else .error (.tooLong ds.length)
    else
      .ok (.fraction negative (natural (ds ++ places)) (power.getD 0 - places.length), r)

def found {α : Type} : Option α → Except Fault α
  | some a => .ok a
  | none => .error .malformed

def readScalar (c : Char) (s : Text) : Except Fault (Json × Text) :=
  if c = '\x22' then do
    let (w, s) ← found (string? s)
    return (.text w, s)
  else if c = '-' then
    match Text.after? "Infinity" s with
    | some s => .ok (.number (.infinite true), s)
    | none => do
      let (n, s) ← readNumber true s
      return (.number n, s)
  else match Text.after? "null" (c :: s), Text.after? "true" (c :: s),
      Text.after? "false" (c :: s), Text.after? "NaN" (c :: s),
      Text.after? "Infinity" (c :: s) with
    | some s, _, _, _, _ => .ok (.null, s)
    | _, some s, _, _, _ => .ok (.bool true, s)
    | _, _, some s, _, _ => .ok (.bool false, s)
    | _, _, _, some s, _ => .ok (.number .undefined, s)
    | _, _, _, _, some s => .ok (.number (.infinite false), s)
    | _, _, _, _, _ => do
      let (n, s) ← readNumber false (c :: s)
      return (.number n, s)

mutual

def value : Nat → Nat → Text → Except Fault (Json × Text)
  | 0, _, _ => .error .malformed
  | _, _, [] => .error .malformed
  | fuel + 1, levels, c :: s =>
    if c = '[' then
      match levels with
      | 0 => .error .tooDeep
      | levels + 1 =>
        match skipSpace s with
        | ']' :: s => .ok (.list [], s)
        | s => do
          let (xs, s) ← items fuel levels s
          return (.list xs, s)
    else if c = '{' then
      match levels with
      | 0 => .error .tooDeep
      | levels + 1 =>
        match skipSpace s with
        | '}' :: s => .ok (.object [], s)
        | s => do
          let (fs, s) ← members fuel levels s
          return (.object (Keyed.ofList fs), s)
    else readScalar c s

def items : Nat → Nat → Text → Except Fault (List Json × Text)
  | 0, _, _ => .error .malformed
  | fuel + 1, levels, s => do
    let (x, s) ← value fuel levels s
    match skipSpace s with
    | ',' :: s => do
      let (xs, s) ← items fuel levels (skipSpace s)
      return (x :: xs, s)
    | ']' :: s => return ([x], s)
    | _ => .error .malformed

def members : Nat → Nat → Text → Except Fault (List (Text × Json) × Text)
  | 0, _, _ => .error .malformed
  | fuel + 1, levels, s =>
    match s with
    | '\x22' :: s => do
      let (k, s) ← found (string? s)
      match skipSpace s with
      | ':' :: s => do
        let (v, s) ← value fuel levels (skipSpace s)
        match skipSpace s with
        | ',' :: s => do
          let (fs, s) ← members fuel levels (skipSpace s)
          return ((k, v) :: fs, s)
        | '}' :: s => return ([(k, v)], s)
        | _ => .error .malformed
      | _ => .error .malformed
    | _ => .error .malformed

end

def read (s : Text) : Except Fault Json := do
  -- of two calls in a row one takes a character at least
  let (j, rest) ← value (2 * s.length + 2) maxDepth (skipSpace s)
  if skipSpace rest = [] then return j else .error .malformed

end Coursework.Json
