import Coursework.Text.Basic

namespace Coursework.Utf8

abbrev Bytes := List UInt8

inductive Reason
  | invalidStart
  | invalidContinuation
  | unexpectedEnd
  deriving DecidableEq, Repr

structure Fault where
  lead : UInt8
  position : Nat
  length : Nat
  reason : Reason
  deriving DecidableEq, Repr

def Reason.message : Reason → Text
  | .invalidStart => "invalid start byte"
  | .invalidContinuation => "invalid continuation byte"
  | .unexpectedEnd => "unexpected end of data"

def Fault.message (f : Fault) : Text :=
  let place : Text :=
    if f.length ≤ 1 then
      "byte 0x" ++ Text.hexadecimal 2 f.lead.toNat ++ " in position " ++ Text.decimal f.position
    else
      "bytes in position " ++ Text.decimal f.position ++ "-" ++
        Text.decimal (f.position + f.length - 1)
  "'utf-8' codec can't decode " ++ place ++ ": " ++ f.reason.message

/-- A character of which some bytes have been read: how many are still to come, the range of the
next one, and the bits so far. -/
structure Open where
  lead : UInt8
  position : Nat
  seen : Nat
  missing : Nat
  low : UInt8
  high : UInt8
  bits : Nat

def opening (position : Nat) (b : UInt8) : Option Open :=
  let make (missing : Nat) (low high : UInt8) (bits : Nat) : Option Open :=
    some ⟨b, position, 1, missing, low, high, bits⟩
  if b < 0xC2 then none
  else if b < 0xE0 then make 1 0x80 0xBF (b.toNat - 0xC0)
  else if b = 0xE0 then make 2 0xA0 0xBF 0
  else if b = 0xED then make 2 0x80 0x9F 0xD
  else if b < 0xF0 then make 2 0x80 0xBF (b.toNat - 0xE0)
  else if b = 0xF0 then make 3 0x90 0xBF 0
  else if b < 0xF4 then make 3 0x80 0xBF (b.toNat - 0xF0)
  else if b = 0xF4 then make 3 0x80 0x8F 4
  else none

def Open.fault (o : Open) (reason : Reason) : Fault := ⟨o.lead, o.position, o.seen, reason⟩

def Open.add (o : Open) (b : UInt8) : Open :=
  ⟨o.lead, o.position, o.seen + 1, o.missing - 1, 0x80, 0xBF, o.bits * 64 + (b.toNat - 0x80)⟩

def decodeFrom : Nat → Option Open → Bytes → Except Fault Text
  | _, none, [] => .ok []
  | _, some o, [] => .error (o.fault .unexpectedEnd)
  | position, none, b :: bs =>
    if b < 0x80 then (Char.ofNat b.toNat :: ·) <$> decodeFrom (position + 1) none bs
    else match opening position b with
      | none => .error ⟨b, position, 1, .invalidStart⟩
      | some o => decodeFrom (position + 1) (some o) bs
  | position, some o, b :: bs =>
    if o.low ≤ b ∧ b ≤ o.high then
      let o := o.add b
      if o.missing = 0 then (Char.ofNat o.bits :: ·) <$> decodeFrom (position + 1) none bs
      else decodeFrom (position + 1) (some o) bs
    else .error (o.fault .invalidContinuation)

def decode (bs : Bytes) : Except Fault Text := decodeFrom 0 none bs

def encodeChar (c : Char) : Bytes :=
  let n := c.toNat
  let tail (place : Nat) : UInt8 := UInt8.ofNat (0x80 + n / place % 64)
  if n < 0x80 then [UInt8.ofNat n]
  else if n < 0x800 then [UInt8.ofNat (0xC0 + n / 64), tail 1]
  else if n < 0x10000 then [UInt8.ofNat (0xE0 + n / 4096), tail 64, tail 1]
  else [UInt8.ofNat (0xF0 + n / 262144), tail 4096, tail 64, tail 1]

def encode (s : Text) : Bytes := s.flatMap encodeChar

end Coursework.Utf8
