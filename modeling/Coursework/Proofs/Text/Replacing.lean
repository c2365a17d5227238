import Coursework.Proofs.Text.Pieces

namespace Coursework.Text

variable {old new s r : Text} {c : Char}

theorem startsWith_iff : startsWith s old = true ↔ old <+: s := by
  rw [startsWith, Option.isSome_iff_exists]
  simp only [after?_eq_some_iff]
  constructor
  · rintro ⟨r, rfl⟩
    exact List.prefix_append _ _
  · rintro ⟨r, rfl⟩
    exact ⟨r, rfl⟩

theorem replaceFrom_length (old new u s : Text) :
    replaceFrom old new u.length (u ++ s) = replace old new s := by
  induction u with
  | nil => rfl
  | cons c u ih => exact ih

theorem replace_found (h : old ≠ []) (new s : Text) :
    replace old new (old ++ s) = new ++ replace old new s := by
  obtain ⟨c, u, rfl⟩ := List.exists_cons_of_ne_nil h
  have hs : startsWith (c :: (u ++ s)) (c :: u) = true := startsWith_iff.mpr ⟨s, rfl⟩
  rw [List.cons_append, replace, replaceFrom, if_pos hs]
  exact congrArg (new ++ ·) (replaceFrom_length _ new u s)

theorem replace_cons (h : ¬old <+: c :: s) (new : Text) :
    replace old new (c :: s) = c :: replace old new s := by
  rw [← startsWith_iff] at h
  rw [replace, replaceFrom, if_neg h, replace]

theorem occurrence_induction {P : Text → Prop} (h : old ≠ []) (nil : P [])
    (found : ∀ s, P s → P (old ++ s)) (cons : ∀ c s, ¬old <+: c :: s → P s → P (c :: s)) :
    ∀ s, P s := by
  intro s
  induction hn : s.length using Nat.strong_induction_on generalizing s with
  | _ n ih =>
    subst hn
    have hpos := List.length_pos_iff.mpr h
    by_cases hs : old <+: s
    · obtain ⟨r, rfl⟩ := hs
      refine found r (ih r.length ?_ r rfl)
      rw [List.length_append]
      omega
    · cases s with
      | nil => exact nil
      | cons c s => exact cons c s hs (ih s.length (Nat.lt_succ_self _) s rfl)

theorem isPrefix_append_cons (hc : c ∉ old) : old <+: s ++ c :: r ↔ old <+: s := by
  constructor
  · intro h
    rcases List.prefix_or_prefix_of_prefix h (List.prefix_append s (c :: r)) with h' | ⟨m, rfl⟩
    · exact h'
    · rw [List.prefix_append_right_inj] at h
      cases m with
      | nil => rw [List.append_nil]
      | cons d m =>
        obtain ⟨rfl, -⟩ := List.cons_prefix_cons.mp h
        simp at hc
  · exact fun h => h.trans (List.prefix_append _ _)

theorem replace_append_cons (h : old ≠ []) (hc : c ∉ old) (new s r : Text) :
    replace old new (s ++ c :: r) = replace old new s ++ c :: replace old new r := by
  induction s using occurrence_induction h with
  | nil =>
    refine replace_cons ?_ new
    intro hp
    exact h (List.prefix_nil.mp ((isPrefix_append_cons (s := []) hc).mp hp))
  | found s ih => rw [List.append_assoc, replace_found h, replace_found h, ih, List.append_assoc]
  | cons d s hd ih =>
    rw [replace_cons hd, List.cons_append, replace_cons, ih, List.cons_append]
    exact fun hp => hd ((isPrefix_append_cons hc).mp hp)

theorem replace_concat (h : old ≠ []) (hc : c ∉ old) (new s : Text) :
    replace old new (s ++ [c]) = replace old new s ++ [c] :=
  replace_append_cons h hc new s []

theorem replace_join (h : old ≠ []) (hc : c ∉ old) (new : Text) (ws : List Text) :
    replace old new (join [c] ws) = join [c] (ws.map (replace old new)) := by
  induction ws with
  | nil => rfl
  | cons w ws ih =>
    by_cases hws : ws = []
    · subst hws
      rfl
    · rw [join_cons _ _ hws, List.map_cons, join_cons _ _ (by simpa using hws), ← ih,
        List.append_assoc, List.append_assoc, List.singleton_append, List.singleton_append,
        replace_append_cons h hc]

theorem mem_of_mem_replace (h : c ∈ replace old new s) : c ∈ s ∨ c ∈ new := by
  have hr : ∀ covered, c ∈ replaceFrom old new covered s → c ∈ s ∨ c ∈ new := by
    clear h
    intro covered h
    fun_induction replaceFrom old new covered s with
    | case1 => simp at h
    | case2 covered d s ih => exact (ih h).imp (List.mem_cons_of_mem _) id
    | case3 d s hs ih =>
      rcases List.mem_append.mp h with h | h
      · exact .inr h
      · exact (ih h).imp (List.mem_cons_of_mem _) id
    | case4 d s hs ih =>
      rcases List.mem_cons.mp h with rfl | h
      · simp
      · exact (ih h).imp (List.mem_cons_of_mem _) id
  exact hr 0 h

theorem replace_eq_nil (hnew : new ≠ []) : replace old new s = [] ↔ s = [] := by
  constructor
  · intro hs
    cases s with
    | nil => rfl
    | cons c s =>
      rw [replace, replaceFrom] at hs
      split at hs
      · simp [hnew] at hs
      · cases hs
  · rintro rfl
    rfl

theorem head?_replace (hnew : new ≠ []) (hc : c ∈ (replace old new s).head?) :
    c ∈ new ∨ c ∈ s.head? := by
  cases s with
  | nil => cases hc
  | cons d s =>
    rw [replace, replaceFrom] at hc
    split at hc
    · rw [List.head?_append_of_ne_nil _ hnew] at hc
      exact .inl (List.mem_of_mem_head? hc)
    · exact .inr hc

theorem getLast?_replace (h : old ≠ []) (hnew : new ≠ [])
    (hc : c ∈ (replace old new s).getLast?) : c ∈ new ∨ c ∈ s.getLast? := by
  induction s using occurrence_induction h with
  | nil => cases hc
  | found s ih =>
    rw [replace_found h] at hc
    by_cases hs : s = []
    · subst hs
      rw [replace, replaceFrom, List.append_nil] at hc
      exact .inl (List.mem_of_mem_getLast? hc)
    · rw [List.getLast?_append_of_ne_nil _ ((replace_eq_nil hnew).not.mpr hs)] at hc
      rw [List.getLast?_append_of_ne_nil _ hs]
      exact ih hc
  | cons d s hd ih =>
    rw [replace_cons hd] at hc
    by_cases hs : s = []
    · subst hs
      exact .inr hc
    · rw [← List.singleton_append,
        List.getLast?_append_of_ne_nil _ ((replace_eq_nil hnew).not.mpr hs)] at hc
      rw [← List.singleton_append, List.getLast?_append_of_ne_nil _ hs]
      exact ih hc

theorem replace_of_not_infix (new : Text) (h : ¬ old <:+: s) : replace old new s = s := by
  induction s with
  | nil => rfl
  | cons c s ih =>
    rw [List.infix_cons_iff, not_or] at h
    rw [replace_cons h.1, ih h.2]

theorem isPrefix_replace {w : Text} (h : old ≠ []) (hw : w <+: replace old new s) :
    w <+: s ∨ ∃ a v r, w = a ++ v ∧ v ≠ [] ∧ v <+: new ++ r := by
  by_cases hne : w = []
  · exact .inl (hne ▸ List.nil_prefix)
  · induction s using occurrence_induction h generalizing w with
    | nil => exact .inl hw
    | found s ih =>
      rw [replace_found h] at hw
      exact .inr ⟨[], w, _, rfl, hne, hw⟩
    | cons c s hs ih =>
      rw [replace_cons hs] at hw
      obtain ⟨d, w, rfl⟩ := List.exists_cons_of_ne_nil hne
      obtain ⟨rfl, hrest⟩ := List.cons_prefix_cons.mp hw
      by_cases hnil : w = []
      · subst hnil
        exact .inl (List.cons_prefix_cons.mpr ⟨rfl, List.nil_prefix⟩)
      · rcases ih hrest hnil with hrest | ⟨a, v, r, rfl, hv, hr⟩
        · exact .inl (List.cons_prefix_cons.mpr ⟨rfl, hrest⟩)
        · exact .inr ⟨d :: a, v, r, rfl, hv, hr⟩

structure Apart (old new : Text) : Prop where
  starts : ∀ v, v <:+ new → v ≠ [] → ∀ r, ¬ old <+: v ++ r
  ends : ∀ v, v <:+ old → v ≠ [] → v ≠ old → ∀ r, ¬ v <+: new ++ r

theorem Apart.not_infix_replace (ha : Apart old new) (h : old ≠ []) (s : Text) :
    ¬ old <:+: replace old new s := by
  -- what is put in starts and ends no occurrence, so none can come about around it
  induction s using occurrence_induction h with
  | nil => exact fun hi => h (List.infix_nil.mp hi)
  | found s ih =>
    have hafter : ∀ v, v <:+ new → ¬ old <:+: v ++ replace old new s := by
      intro v hv
      induction v with
      | nil => exact ih
      | cons c v ihv =>
        rw [List.cons_append, List.infix_cons_iff, not_or]
        exact ⟨ha.starts _ hv (List.cons_ne_nil c v) _, ihv ((List.suffix_cons c v).trans hv)⟩
    rw [replace_found h]
    exact hafter new (List.suffix_refl new)
  | cons c s hs ih =>
    rw [replace_cons hs, List.infix_cons_iff, not_or]
    refine ⟨fun hp => ?_, ih⟩
    obtain ⟨d, w, rfl⟩ := List.exists_cons_of_ne_nil h
    obtain ⟨rfl, hw⟩ := List.cons_prefix_cons.mp hp
    rcases isPrefix_replace h hw with hw | ⟨a, v, r, rfl, hv, hr⟩
    · exact hs (List.cons_prefix_cons.mpr ⟨rfl, hw⟩)
    · refine ha.ends v ⟨d :: a, rfl⟩ hv (fun he => ?_) r hr
      have hlen := congrArg List.length he
      simp only [List.length_cons, List.length_append] at hlen
      omega

end Coursework.Text
