import Mathlib.Data.List.DropRight
import Coursework.Proofs.Text.Replacing

namespace Coursework.Text

variable {s old new : Text} {c : Char}

theorem mem_of_mem_trim (h : c ∈ trim s) : c ∈ s := by
  have hpre : trim s <+: trimLeft s := List.rdropWhile_prefix isBlank _
  have hsuf : trimLeft s <:+ s := List.dropWhile_suffix isBlank
  exact hsuf.subset (hpre.subset h)

theorem head?_trim (h : c ∈ (trim s).head?) : isBlank c = false := by
  obtain ⟨r, hr⟩ : trim s <+: trimLeft s := List.rdropWhile_prefix isBlank _
  have hhead : (trimLeft s).head? = some c := by
    rw [← hr, List.head?_append, h]
    rfl
  have hnot := List.head?_dropWhile_not isBlank s
  rw [← trimLeft, hhead] at hnot
  simpa using hnot

theorem getLast?_trim (h : c ∈ (trim s).getLast?) : isBlank c = false := by
  have hne : trim s ≠ [] := by
    intro he
    rw [he] at h
    cases h
  rw [List.getLast?_eq_some_getLast hne, Option.mem_some_iff] at h
  exact Bool.eq_false_iff.mpr (h ▸ List.rdropWhile_last_not isBlank (trimLeft s) hne)

theorem trimLeft_eq_self (h : ∀ c ∈ s.head?, isBlank c = false) : trimLeft s = s := by
  cases s with
  | nil => rfl
  | cons c s => exact List.dropWhile_cons_of_neg (Bool.eq_false_iff.mp (h c rfl))

theorem trimRight_eq_self (h : ∀ c ∈ s.getLast?, isBlank c = false) : trimRight s = s := by
  refine List.rdropWhile_eq_self_iff.mpr fun hne => Bool.eq_false_iff.mp (h _ ?_)
  rw [List.getLast?_eq_some_getLast hne]
  rfl

theorem trim_trim (s : Text) : trim (trim s) = trim s := by
  rw [trim, trimLeft_eq_self fun c => head?_trim, trimRight_eq_self fun c => getLast?_trim]

section

variable (h : old ≠ []) (hnew : new ≠ []) (hold : ∀ c ∈ old, isBlank c = false)
  (hblank : ∀ c ∈ new, isBlank c = false)

include h hnew hold hblank

theorem trimLeft_replace (s : Text) :
    trimLeft (replace old new s) = replace old new (trimLeft s) := by
  induction s with
  | nil => rfl
  | cons c s ih =>
    cases hc : isBlank c with
    | true =>
      have hmem : c ∉ old := fun hm => by simp [hold c hm] at hc
      have hcons : replace old new (c :: s) = c :: replace old new s :=
        replace_append_cons h hmem new [] s
      rw [hcons, trimLeft, trimLeft, List.dropWhile_cons_of_pos hc, List.dropWhile_cons_of_pos hc]
      exact ih
    | false =>
      have hself : trimLeft (c :: s) = c :: s := List.dropWhile_cons_of_neg (by simp [hc])
      rw [hself]
      apply trimLeft_eq_self
      intro d hd
      rcases head?_replace hnew hd with hd | hd
      · exact hblank d hd
      · exact Option.mem_some_iff.mp hd ▸ hc

theorem trimRight_replace (s : Text) :
    trimRight (replace old new s) = replace old new (trimRight s) := by
  -- from the right: a blank at the end is part of no occurrence
  induction s using List.reverseRecOn with
  | nil => rfl
  | append_singleton s c ih =>
    cases hc : isBlank c with
    | true =>
      have hmem : c ∉ old := fun hm => by simp [hold c hm] at hc
      have hdrop : ∀ t, trimRight (t ++ [c]) = trimRight t := fun t =>
        List.rdropWhile_concat_pos isBlank t c hc
      rw [replace_concat h hmem, hdrop, hdrop, ih]
    | false =>
      have hself : trimRight (s ++ [c]) = s ++ [c] :=
        List.rdropWhile_concat_neg isBlank s c (by simp [hc])
      rw [hself]
      apply trimRight_eq_self
      intro d hd
      rcases getLast?_replace h hnew hd with hd | hd
      · exact hblank d hd
      · rw [List.getLast?_concat] at hd
        exact Option.mem_some_iff.mp hd ▸ hc

theorem trim_replace (s : Text) : trim (replace old new s) = replace old new (trim s) := by
  rw [trim, trimLeft_replace h hnew hold hblank, trimRight_replace h hnew hold hblank, trim]

end

end Coursework.Text
