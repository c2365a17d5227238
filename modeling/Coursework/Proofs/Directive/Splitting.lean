import Mathlib.Data.List.TakeWhile
import Coursework.Directive.Basic
import Coursework.Proofs.Text.Pieces

namespace Coursework

namespace Text

theorem blank_cons {c : Char} {s : Text} : blank (c :: s) = (isBlank c && blank s) := rfl

theorem trimRight_of_blank {s : Text} (h : blank s = true) : trimRight s = [] := by
  rw [trimRight, dropEndWhile, List.reverse_eq_nil_iff, List.dropWhile_eq_nil_iff]
  intro c hc
  exact List.all_eq_true.mp h c (List.mem_reverse.mp hc)

theorem trimRight_cons {c : Char} {s : Text} (h : blank (c :: s) = false) :
    trimRight (c :: s) = c :: trimRight s := by
  rw [trimRight, trimRight, dropEndWhile, dropEndWhile, List.reverse_cons, List.dropWhile_append]
  split
  · next hs =>
    have hb : blank s = true := by
      rw [List.isEmpty_iff, List.dropWhile_eq_nil_iff] at hs
      exact List.all_eq_true.mpr fun d hd => hs d (List.mem_reverse.mpr hd)
    have hc : isBlank c = false := by simpa [blank_cons, hb] using h
    have hnil := List.isEmpty_iff.mp hs
    simp [hc, hnil]
  · simp

end Text

namespace Directive

variable {m : Marks} {k : Char} {line comment code : Text}

theorem commentAt_self {s : Text} (h : '\n' ∉ s) : commentAt [k] (k :: s) = some s := by
  simp [commentAt, Text.after?, Text.oneLine?_of_not_mem h]

theorem commentAt_ne {c : Char} {s : Text} (h : k ≠ c) : commentAt [k] (c :: s) = none := by
  simp [commentAt, Text.after?, h]

theorem splitCode_cons (marker : Text) (c : Char) (s : Text) :
    splitCode marker (c :: s) = match commentAfterBlanks marker (c :: s) with
      | some a => some ⟨[], a⟩
      | none =>
        if c = '\n' then none else (splitCode marker s).map fun p => ⟨c :: p.code, p.comment⟩ :=
  (rfl)

theorem commentAfterBlanks_cons (marker : Text) (c : Char) (s : Text) :
    commentAfterBlanks marker (c :: s) =
      (if Text.isBlank c then commentAfterBlanks marker s else none).or
        (commentAt marker (c :: s)) := by
  have hstep : commentAfterBlanks marker (c :: s) =
      match if Text.isBlank c then commentAfterBlanks marker s else none with
        | some a => some a
        | none => commentAt marker (c :: s) := (rfl)
  rw [hstep]
  cases if Text.isBlank c then commentAfterBlanks marker s else none <;> rfl

theorem commentAfterBlanks_eq (hk : Text.isBlank k = false) (hc : k ∉ code)
    (hn : '\n' ∉ comment) :
    commentAfterBlanks [k] (code ++ k :: comment) =
      if Text.blank code then some comment else none := by
  induction code with
  | nil => simp [commentAfterBlanks_cons, hk, commentAt_self hn, Text.blank]
  | cons c code ih =>
    rw [List.mem_cons, not_or] at hc
    rw [List.cons_append, commentAfterBlanks_cons, ih hc.2, commentAt_ne hc.1, Text.blank_cons]
    cases Text.isBlank c <;> cases Text.blank code <;> rfl

theorem commentAfterBlanks_of_not_mem {s : Text} (hs : k ∉ s) :
    commentAfterBlanks [k] s = none := by
  induction s with
  | nil => rfl
  | cons c s ih =>
    rw [List.mem_cons, not_or] at hs
    rw [commentAfterBlanks_cons, ih hs.2, commentAt_ne hs.1]
    cases Text.isBlank c <;> rfl

theorem splitCode_eq (hk : Text.isBlank k = false) (hc : k ∉ code)
    (hn : '\n' ∉ code ++ k :: comment) :
    splitCode [k] (code ++ k :: comment) = some ⟨Text.trimRight code, comment⟩ := by
  have hcomment : '\n' ∉ comment := fun hm => hn (by simp [hm])
  induction code with
  | nil =>
    have h : commentAfterBlanks [k] ([] ++ k :: comment) = _ :=
      commentAfterBlanks_eq hk (by simp) hcomment
    rw [List.nil_append] at h ⊢
    rw [splitCode_cons, h]
    rfl
  | cons c code ih =>
    have h := commentAfterBlanks_eq hk hc hcomment
    rw [List.cons_append] at h hn ⊢
    rw [splitCode_cons, h]
    rw [List.mem_cons, not_or] at hc hn
    cases hb : Text.blank (c :: code) with
    | true => simp [Text.trimRight_of_blank hb]
    | false => simp [Ne.symm hn.1, ih hc.2 hn.2, Text.trimRight_cons hb]

theorem splitCode_of_not_mem {s : Text} (hs : k ∉ s) : splitCode [k] s = none := by
  induction s with
  | nil => rfl
  | cons c s ih =>
    rw [splitCode_cons, commentAfterBlanks_of_not_mem hs]
    rw [List.mem_cons, not_or] at hs
    simp [ih hs.2]

/-- Whether a line is indentation, code and a comment: the code starts with a character that is
no blank and no marker, and the comment follows the first marker after it. -/
def HasComment (k : Char) (line comment : Text) : Prop :=
  ∃ indent first code, line = indent ++ first :: code ++ k :: comment ∧
    (∀ c ∈ indent, isIndent c = true) ∧ startsCode [k] first = true ∧ k ∉ code

theorem isBlank_of_isIndent {c : Char} (h : isIndent c = true) : Text.isBlank c = true := by
  simp only [isIndent, Bool.or_eq_true, beq_iff_eq] at h
  rcases h with rfl | rfl <;> rfl

theorem not_isIndent_of_startsCode {marker : Text} {c : Char} (h : startsCode marker c = true) :
    isIndent c = false := by
  by_contra hi
  have hb := isBlank_of_isIndent (Bool.of_not_eq_false hi)
  simp [startsCode, hb] at h

theorem split_of_hasComment (hm : m.marker = [k]) (hk : Text.isBlank k = false)
    (hn : '\n' ∉ line) (h : HasComment k line comment) :
    ∃ code, m.split line = some ⟨code, comment⟩ := by
  obtain ⟨indent, first, code, rfl, hindent, hfirst, hcode⟩ := h
  have hdrop : (indent ++ first :: code ++ k :: comment).dropWhile isIndent =
      first :: (code ++ k :: comment) := by
    rw [List.append_assoc, List.cons_append, List.dropWhile_append_of_pos hindent,
      List.dropWhile_cons_of_neg (by simp [not_isIndent_of_startsCode hfirst])]
  have hfeed : '\n' ∉ code ++ k :: comment := fun hc => hn (by
    rw [List.append_assoc, List.cons_append]
    exact List.mem_append_right _ (List.mem_cons_of_mem _ hc))
  refine ⟨first :: Text.trimRight code, ?_⟩
  simp only [Marks.split, hdrop, hm, hfirst, if_true, splitCode_eq hk hcode hfeed, Option.map_some]

end Directive

end Coursework
