import Coursework.Text.Basic

namespace Coursework.Text

def isBlank (c : Char) : Bool :=
  let n := c.toNat
  9 ≤ n && n ≤ 13 || 28 ≤ n && n ≤ 32 || n == 0x85 || n == 0xA0 || n == 0x1680 ||
    0x2000 ≤ n && n ≤ 0x200A || n == 0x2028 || n == 0x2029 || n == 0x202F || n == 0x205F ||
    n == 0x3000

def isLineBreak (c : Char) : Bool :=
  let n := c.toNat
  10 ≤ n && n ≤ 13 || 28 ≤ n && n ≤ 30 || n == 0x85 || n == 0x2028 || n == 0x2029

theorem isBlank_of_isLineBreak {c : Char} (h : isLineBreak c = true) : isBlank c = true := by
  simp only [isLineBreak, isBlank, Bool.or_eq_true, Bool.and_eq_true, decide_eq_true_eq,
    beq_iff_eq] at h ⊢
  omega

def trimLeft (s : Text) : Text := s.dropWhile isBlank

def trimRight (s : Text) : Text := dropEndWhile isBlank s

def trim (s : Text) : Text := trimRight (trimLeft s)

def blank (s : Text) : Bool := s.all isBlank

def lines : Text → List Text
  | [] => []
  | '\r' :: '\n' :: s => [] :: lines s
  | c :: s =>
    if isLineBreak c then [] :: lines s
    else match lines s with
      | [] => [[c]]
      | l :: ls => (c :: l) :: ls

def oneLine? : Text → Option Text
  | [] => some []
  | ['\n'] => some []
  | c :: s => if c = '\n' then none else (oneLine? s).map (c :: ·)

def unifyLineEnds : Text → Text
  | [] => []
  | '\r' :: '\n' :: s => '\n' :: unifyLineEnds s
  | '\r' :: s => '\n' :: unifyLineEnds s
  | c :: s => c :: unifyLineEnds s

end Coursework.Text
