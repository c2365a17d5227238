import Coursework.Text.Printable

namespace Coursework.Text

def apostrophe : Char := '\x27'

def quotationMark : Char := '\x22'

def backslash : Char := '\x5c'

def enclosingMark (s : Text) : Char :=
  if s.contains apostrophe && !s.contains quotationMark then quotationMark else apostrophe

def escaped (mark c : Char) : Text :=
  if c = mark ∨ c = backslash then [backslash, c]
  else if c = '\n' then [backslash, 'n']
  else if c = '\r' then [backslash, 'r']
  else if c = '\t' then [backslash, 't']
  else if isPrintable c then [c]
  else if c.toNat < 0x100 then [backslash, 'x'] ++ hexadecimal 2 c.toNat
  else if c.toNat < 0x10000 then [backslash, 'u'] ++ hexadecimal 4 c.toNat
  else [backslash, 'U'] ++ hexadecimal 8 c.toNat

def literal (s : Text) : Text :=
  let mark := enclosingMark s
  [mark] ++ s.flatMap (escaped mark) ++ [mark]

end Coursework.Text
