/-!
Text is the list of its characters, so that every rule on text is a recursion on a list.

Here stand the operations that know nothing of any format: trimming, splitting, joining,
replacing and writing numbers.
-/

namespace Coursework

abbrev Text := List Char

namespace Text

instance : Coe String Text := ⟨String.toList⟩

def after? : Text → Text → Option Text
  | [], s => some s
  | _ :: _, [] => none
  | c :: w, d :: s => if c = d then after? w s else none

@[simp] theorem after?_append (w s : Text) : after? w (w ++ s) = some s := by
  induction w with
  | nil => rfl
  | cons c w ih => simp [after?, ih]

theorem eq_append_of_after? {w s r : Text} (h : after? w s = some r) : s = w ++ r := by
  induction w generalizing s with
  | nil => simpa [after?] using h
  | cons c w ih =>
    cases s with
    | nil => simp [after?] at h
    | cons d s =>
      by_cases hc : c = d
      · simp only [after?, hc, if_true] at h
        simp [hc, ih h]
      · simp [after?, hc] at h

theorem after?_eq_some_iff {w s r : Text} : after? w s = some r ↔ s = w ++ r :=
  ⟨eq_append_of_after?, fun h => by simp [h]⟩

def startsWith (s w : Text) : Bool := (after? w s).isSome

def endsWith (s w : Text) : Bool := startsWith s.reverse w.reverse

def dropEndWhile (p : Char → Bool) (s : Text) : Text := (s.reverse.dropWhile p).reverse

def splitOn (sep : Char) : Text → List Text
  | [] => [[]]
  | c :: s =>
    if c = sep then [] :: splitOn sep s
    else match splitOn sep s with
      | [] => [[c]]
      | w :: ws => (c :: w) :: ws

theorem splitOn_ne_nil (sep : Char) (s : Text) : splitOn sep s ≠ [] := by
  induction s with
  | nil => simp [splitOn]
  | cons c s ih =>
    by_cases h : c = sep
    · simp [splitOn, h]
    · cases hs : splitOn sep s <;> simp [splitOn, h, hs]

def join (sep : Text) : List Text → Text
  | [] => []
  | [w] => w
  | w :: v :: ws => w ++ sep ++ join sep (v :: ws)

theorem join_splitOn (sep : Char) (s : Text) : join [sep] (splitOn sep s) = s := by
  induction s with
  | nil => rfl
  | cons c s ih =>
    by_cases h : c = sep
    · cases hs : splitOn sep s with
      | nil => exact absurd hs (splitOn_ne_nil sep s)
      | cons w ws => simpa [splitOn, h, hs, join] using hs ▸ ih
    · cases hs : splitOn sep s with
      | nil => exact absurd hs (splitOn_ne_nil sep s)
      | cons w ws =>
        rw [hs] at ih
        cases ws <;> simp_all [splitOn, join]

/-- Walks the text from the left; the first argument counts the characters that an occurrence
found earlier still covers. -/
def replaceFrom (old new : Text) : Nat → Text → Text
  | _, [] => []
  | covered + 1, _ :: s => replaceFrom old new covered s
  | 0, c :: s =>
    if startsWith (c :: s) old then new ++ replaceFrom old new (old.length - 1) s
    else c :: replaceFrom old new 0 s

def replace (old new s : Text) : Text := replaceFrom old new 0 s

def leadingCopiesFrom (u : Text) : Nat → Text → Nat
  | _, [] => 0
  | covered + 1, _ :: s => leadingCopiesFrom u covered s
  | 0, c :: s => if startsWith (c :: s) u then leadingCopiesFrom u (u.length - 1) s + 1 else 0

def leadingCopies (u s : Text) : Nat := leadingCopiesFrom u 0 s

def copies (u : Text) : Nat → Text
  | 0 => []
  | n + 1 => u ++ copies u n

def padLeft (width : Nat) (s : Text) : Text := List.replicate (width - s.length) ' ' ++ s

def digit (n : Nat) : Char :=
  if n < 10 then Char.ofNat (48 + n) else Char.ofNat (87 + n)

def hexadecimal : Nat → Nat → Text
  | 0, _ => []
  | width + 1, n => hexadecimal width (n / 16) ++ [digit (n % 16)]

def decimal (n : Nat) : Text := Nat.toDigits 10 n

def integer : Int → Text
  | .ofNat n => decimal n
  | .negSucc n => '-' :: decimal (n + 1)

end Text

end Coursework
