import Coursework.Json.Basic

namespace Coursework.Json

def units (c : Char) : List Nat :=
  if c.toNat < 0x10000 then [c.toNat]
  else if firstHalf ≤ c.toNat ∧ c.toNat < firstHalf + 0x800 then [c.toNat - firstHalf + 0xD800]
  else [0xD800 + (c.toNat - 0x10000) / 0x400, 0xDC00 + (c.toNat - 0x10000) % 0x400]

def escapedChar (c : Char) : Text :=
  if c = '\x22' then ['\\', '\x22']
  else if c = '\\' then ['\\', '\\']
  else if c = '\n' then ['\\', 'n']
  else if c = '\r' then ['\\', 'r']
  else if c = '\t' then ['\\', 't']
  else if c = '\x0c' then ['\\', 'f']
  else if c = '\x08' then ['\\', 'b']
  else if 32 ≤ c.toNat ∧ c.toNat < 127 then [c]
  else (units c).flatMap fun u => ['\\', 'u'] ++ Text.hexadecimal 4 u

def quoted (s : Text) : Text := ['\x22'] ++ s.flatMap escapedChar ++ ['\x22']

def newLine (level : Option Nat) : Text :=
  match level with
  | none => []
  | some n => '\n' :: List.replicate (2 * n) ' '

def comma (level : Option Nat) : Text :=
  match level with
  | none => ", "
  | some _ => ',' :: newLine level

def deeper (level : Option Nat) : Option Nat := level.map (· + 1)

mutual

def write (level : Option Nat) : Json → Text
  | .null => "null"
  | .bool b => if b then "true" else "false"
  | .number n => n.text
  | .text s => quoted s
  | .list [] => "[]"
  | .list (x :: xs) =>
    '[' :: newLine (deeper level) ++ write (deeper level) x ++ writeItems (deeper level) xs ++
      newLine level ++ "]"
  | .object [] => ['{', '}']
  | .object ((k, v) :: fs) =>
    '{' :: newLine (deeper level) ++ quoted k ++ ": " ++ write (deeper level) v ++
      writeFields (deeper level) fs ++ newLine level ++ ['}']

def writeItems (level : Option Nat) : List Json → Text
  | [] => []
  | x :: xs => comma level ++ write level x ++ writeItems level xs

def writeFields (level : Option Nat) : List (Text × Json) → Text
  | [] => []
  | (k, v) :: fs => comma level ++ quoted k ++ ": " ++ write level v ++ writeFields level fs

end

def indented (j : Json) : Text := write (some 0) j

def compact (j : Json) : Text := write none j

end Coursework.Json
