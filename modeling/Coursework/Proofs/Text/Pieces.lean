import Mathlib.Data.List.Basic
import Mathlib.Data.List.Infix
import Coursework.Text.Blank

namespace Coursework.Text

theorem replace_single (c : Char) (new s : Text) :
    replace [c] new s = s.flatMap fun d => if d = c then new else [d] := by
  unfold replace
  induction s with
  | nil => rfl
  | cons d s ih =>
    by_cases h : d = c
    · simp [replaceFrom, startsWith, after?, h, ih]
    · simp [replaceFrom, startsWith, after?, h, Ne.symm h, ih]

theorem replace_pair_match (a b : Char) (new s : Text) :
    replace [a, b] new (a :: b :: s) = new ++ replace [a, b] new s := by
  simp [replace, replaceFrom, startsWith, after?]

theorem replace_pair_ne (a b c : Char) (new s : Text) (h : c ≠ a ∨ s.head? ≠ some b) :
    replace [a, b] new (c :: s) = c :: replace [a, b] new s := by
  have hn : startsWith (c :: s) [a, b] = false := by
    by_cases hc : a = c
    · subst hc
      cases s with
      | nil => simp [startsWith, after?]
      | cons d s =>
        have hd : b ≠ d := by
          rintro rfl
          simp at h
        simp [startsWith, after?, hd]
    · simp [startsWith, after?, hc]
  simp [replace, replaceFrom, hn]

theorem splitOn_of_not_mem {sep : Char} {s : Text} (h : sep ∉ s) : splitOn sep s = [s] := by
  induction s with
  | nil => rfl
  | cons c s ih =>
    simp only [List.mem_cons, not_or] at h
    simp [splitOn, Ne.symm h.1, ih h.2]

theorem splitOn_append_sep (sep : Char) (s r : Text) :
    splitOn sep (s ++ sep :: r) = splitOn sep s ++ splitOn sep r := by
  induction s with
  | nil => simp [splitOn]
  | cons c s ih =>
    by_cases hc : c = sep
    · simp [splitOn, hc, ih]
    · cases hs : splitOn sep s with
      | nil => exact absurd hs (splitOn_ne_nil sep s)
      | cons w ws => simp [splitOn, hc, ih, hs]

theorem not_mem_of_mem_splitOn {sep : Char} {s w : Text} (h : w ∈ splitOn sep s) : sep ∉ w := by
  induction s generalizing w with
  | nil =>
    rw [List.mem_singleton.mp h]
    exact List.not_mem_nil
  | cons c s ih =>
    by_cases hc : c = sep
    · simp only [splitOn, hc, if_true, List.mem_cons] at h
      rcases h with rfl | h
      · exact List.not_mem_nil
      · exact ih h
    · cases hs : splitOn sep s with
      | nil => exact absurd hs (splitOn_ne_nil sep s)
      | cons v vs =>
        simp only [splitOn, hc, if_false, hs, List.mem_cons] at h
        rcases h with rfl | h
        · exact fun hm => (List.mem_cons.mp hm).elim (fun he => hc he.symm) (ih (by simp [hs]))
        · exact ih (by simp [hs, h])

theorem mem_of_mem_splitOn {sep : Char} {s w : Text} {c : Char} (h : w ∈ splitOn sep s)
    (hc : c ∈ w) : c ∈ s := by
  induction s generalizing w with
  | nil => simp_all [splitOn]
  | cons d s ih =>
    by_cases hd : d = sep
    · simp only [splitOn, hd, if_true, List.mem_cons] at h
      rcases h with rfl | h
      · simp at hc
      · exact List.mem_cons_of_mem _ (ih h hc)
    · cases hs : splitOn sep s with
      | nil => exact absurd hs (splitOn_ne_nil sep s)
      | cons v vs =>
        simp only [splitOn, hd, if_false, hs, List.mem_cons] at h
        rcases h with rfl | h
        · rcases List.mem_cons.mp hc with rfl | hv
          · simp
          · exact List.mem_cons_of_mem _ (ih (by simp [hs]) hv)
        · exact List.mem_cons_of_mem _ (ih (by simp [hs, h]) hc)

theorem join_cons (sep w : Text) {ws : List Text} (h : ws ≠ []) :
    join sep (w :: ws) = w ++ sep ++ join sep ws := by
  cases ws with
  | nil => exact absurd rfl h
  | cons v ws => rfl

theorem splitOn_join_flatMap (sep : Char) {ws : List Text} (hne : ws ≠ []) :
    splitOn sep (join [sep] ws) = ws.flatMap (splitOn sep) := by
  induction ws with
  | nil => exact absurd rfl hne
  | cons w ws ih =>
    by_cases hw : ws = []
    · simp [hw, join]
    · rw [join_cons _ _ hw, List.append_assoc, List.singleton_append, splitOn_append_sep, ih hw,
        List.flatMap_cons]

theorem splitOn_join {sep : Char} {ws : List Text} (hne : ws ≠ []) (h : ∀ w ∈ ws, sep ∉ w) :
    splitOn sep (join [sep] ws) = ws := by
  rw [splitOn_join_flatMap sep hne]
  clear hne
  induction ws with
  | nil => rfl
  | cons w ws ih =>
    rw [List.flatMap_cons, splitOn_of_not_mem (h w (by simp)),
      ih fun v hv => h v (List.mem_cons_of_mem _ hv)]
    rfl

theorem join_eq_append_flatMap (sep w : Text) (ws : List Text) :
    join sep (w :: ws) = w ++ ws.flatMap (sep ++ ·) := by
  induction ws generalizing w with
  | nil => simp [join]
  | cons v ws ih => rw [join_cons sep w (by simp), ih]; simp

theorem join_append (sep : Text) {as bs : List Text} (ha : as ≠ []) (hb : bs ≠ []) :
    join sep (as ++ bs) = join sep as ++ sep ++ join sep bs := by
  induction as with
  | nil => exact absurd rfl ha
  | cons a as ih =>
    by_cases h : as = []
    · subst h
      rw [List.singleton_append, join_cons _ _ hb]
      rfl
    · rw [List.cons_append, join_cons _ _ (by simp [h]), join_cons _ _ h, ih h]
      simp

theorem mem_join {sep : Text} {ws : List Text} {c : Char} (h : c ∈ join sep ws) :
    c ∈ sep ∨ ∃ w ∈ ws, c ∈ w := by
  induction ws with
  | nil => simp [join] at h
  | cons w ws ih =>
    by_cases hw : ws = []
    · subst hw
      exact .inr ⟨w, by simp, by simpa [join] using h⟩
    · rw [join_cons sep w hw] at h
      simp only [List.mem_append] at h
      rcases h with (h | h) | h
      · exact .inr ⟨w, by simp, h⟩
      · exact .inl h
      · rcases ih h with h | ⟨v, hv, hc⟩
        · exact .inl h
        · exact .inr ⟨v, List.mem_cons_of_mem _ hv, hc⟩

theorem forall_split_iff (w : Text) (p : Char → Bool) (P : Text → Prop) :
    (∀ u c v, w = u ++ c :: v → p c = true → P u) ↔
      ∀ i, (h : i < w.length) → p w[i] = true → P (w.take i) := by
  constructor
  · intro h i hi hp
    refine h (w.take i) w[i] (w.drop (i + 1)) ?_ hp
    rw [List.cons_getElem_drop_succ, List.take_append_drop]
  · rintro h u c v rfl hp
    have := h u.length (by simp) (by simpa using hp)
    simpa using this

def Unbroken (s : Text) : Prop := ∀ c ∈ s, isLineBreak c = false

instance : DecidablePred Unbroken := fun s =>
  List.decidableBAll (isLineBreak · = false) s

@[simp] theorem unbroken_nil : Unbroken [] := by simp [Unbroken]

@[simp] theorem unbroken_cons {c : Char} {s : Text} :
    Unbroken (c :: s) ↔ isLineBreak c = false ∧ Unbroken s := by
  simp [Unbroken]

@[simp] theorem unbroken_append {s t : Text} : Unbroken (s ++ t) ↔ Unbroken s ∧ Unbroken t := by
  simp [Unbroken, or_imp, forall_and]

theorem Unbroken.sub {s t : Text} (h : Unbroken s) (hs : ∀ c ∈ t, c ∈ s) : Unbroken t :=
  fun c hc => h c (hs c hc)

theorem unbroken_join {sep : Text} {ws : List Text} (hs : Unbroken sep)
    (h : ∀ w ∈ ws, Unbroken w) : Unbroken (join sep ws) := by
  intro c hc
  rcases mem_join hc with hc | ⟨w, hw, hc⟩
  · exact hs c hc
  · exact h w hw c hc

theorem Unbroken.not_mem_lineFeed {s : Text} (h : Unbroken s) : '\n' ∉ s := by
  intro hn
  exact absurd (h _ hn) (by decide)

theorem oneLine?_of_not_mem {s : Text} (h : '\n' ∉ s) : oneLine? s = some s := by
  induction s with
  | nil => rfl
  | cons c s ih =>
    rw [List.mem_cons, not_or] at h
    cases s with
    | nil => simp [oneLine?, Ne.symm h.1]
    | cons d s =>
      have hs := ih h.2
      have hne : c :: d :: s ≠ ['\n'] := by simp
      rw [oneLine?.eq_3 c (d :: s) (by simp), if_neg (Ne.symm h.1), hs]
      rfl

def FeedsOnly (s : Text) : Prop := ∀ c ∈ s, isLineBreak c = true → c = '\n'

instance : DecidablePred FeedsOnly := fun s =>
  List.decidableBAll (fun c => isLineBreak c = true → c = '\n') s

theorem Unbroken.feedsOnly {s : Text} (h : Unbroken s) : FeedsOnly s := by
  intro c hc hb
  simp [h c hc] at hb

@[simp] theorem feedsOnly_append {s t : Text} :
    FeedsOnly (s ++ t) ↔ FeedsOnly s ∧ FeedsOnly t := by
  simp [FeedsOnly, or_imp, forall_and]

theorem lines_cons_of_not_break {c : Char} (s : Text) (h : isLineBreak c = false) :
    lines (c :: s) = match lines s with
      | [] => [[c]]
      | l :: ls => (c :: l) :: ls := by
  have hr : c ≠ '\r' := by rintro rfl; exact absurd h (by decide)
  rw [lines.eq_3 c s (by rintro s' rfl; exact absurd rfl hr)]
  cases lines s <;> simp [h]

theorem lines_lineFeed (s : Text) : lines ('\n' :: s) = [] :: lines s := by
  rw [lines.eq_3 '\n' s (by simp)]
  simp [isLineBreak]

theorem lines_append {t : Text} (h : FeedsOnly t) (r : Text) :
    lines (t ++ '\n' :: r) = splitOn '\n' t ++ lines r := by
  induction t with
  | nil => simp [splitOn, lines_lineFeed]
  | cons c t ih =>
    have ht : FeedsOnly t := fun d hd => h d (List.mem_cons_of_mem _ hd)
    by_cases hc : c = '\n'
    · subst hc
      simp [lines_lineFeed, splitOn, ih ht]
    · have hb : isLineBreak c = false := by
        by_contra hb
        exact hc (h c (by simp) (by simpa using hb))
      cases hs : splitOn '\n' t with
      | nil => exact absurd hs (splitOn_ne_nil _ t)
      | cons w ws => simp [lines_cons_of_not_break _ hb, ih ht, splitOn, hc, hs]

theorem unbroken_of_mem_lines {s l : Text} (h : l ∈ lines s) : Unbroken l := by
  fun_induction lines s generalizing l with
  | case1 => simp at h
  | case2 s ih =>
    rcases List.mem_cons.mp h with rfl | h
    · simp
    · exact ih h
  | case3 c s hr hb ih =>
    rcases List.mem_cons.mp h with rfl | h
    · simp
    · exact ih h
  | case4 c s hr hb hs ih =>
    obtain rfl : l = [c] := by simpa using h
    simpa using hb
  | case5 c s hr hb m ms hs ih =>
    rcases List.mem_cons.mp h with rfl | h
    · have hm : Unbroken m := ih (by simp [hs])
      exact unbroken_cons.mpr ⟨by simpa using hb, hm⟩
    · exact ih (by simp [hs, h])

theorem mem_of_mem_lines {s l : Text} {k : Char} (h : l ∈ lines s) (hk : k ∈ l) : k ∈ s := by
  fun_induction lines s generalizing l with
  | case1 => cases h
  | case2 s ih =>
    rcases List.mem_cons.mp h with rfl | h
    · cases hk
    · exact List.mem_cons_of_mem _ (List.mem_cons_of_mem _ (ih h hk))
  | case3 c s hr hb ih =>
    rcases List.mem_cons.mp h with rfl | h
    · cases hk
    · exact List.mem_cons_of_mem _ (ih h hk)
  | case4 c s hr hb hs ih =>
    obtain rfl : l = [c] := by simpa using h
    exact List.mem_singleton.mp hk ▸ List.mem_cons_self
  | case5 c s hr hb m ms hs ih =>
    rcases List.mem_cons.mp h with rfl | h
    · rcases List.mem_cons.mp hk with rfl | hk
      · exact List.mem_cons_self
      · exact List.mem_cons_of_mem _ (ih (by simp [hs]) hk)
    · exact List.mem_cons_of_mem _ (ih (by simp [hs, h]) hk)

theorem feedsOnly_join {ws : List Text} (h : ∀ w ∈ ws, Unbroken w) :
    FeedsOnly (join ['\n'] ws) := by
  intro c hc hb
  rcases mem_join hc with hc | ⟨w, hw, hc⟩
  · exact List.mem_singleton.mp hc
  · exact (h w hw).feedsOnly c hc hb

theorem unifyLineEnds_of_not_mem {s : Text} (h : '\r' ∉ s) : unifyLineEnds s = s := by
  fun_induction unifyLineEnds s with
  | case1 => rfl
  | case2 s ih => simp at h
  | case3 s hs ih => simp at h
  | case4 c s hc hc' ih =>
    rw [ih fun hm => h (List.mem_cons_of_mem _ hm)]

theorem FeedsOnly.unifyLineEnds {s : Text} (h : FeedsOnly s) : unifyLineEnds s = s := by
  apply unifyLineEnds_of_not_mem
  intro hm
  exact absurd (h _ hm (by decide)) (by decide)

theorem FeedsOnly.concat {s : Text} (h : FeedsOnly s) : FeedsOnly (s ++ ['\n']) := by
  apply feedsOnly_append.mpr
  exact ⟨h, fun c hc _ => List.mem_singleton.mp hc⟩

theorem countP_unifyLineEnds {p : Char → Bool} (hr : p '\r' = false) (hn : p '\n' = false)
    (s : Text) : (unifyLineEnds s).countP p = s.countP p := by
  fun_induction unifyLineEnds s with
  | case1 => rfl
  | case2 s ih => simp [hr, hn, ih]
  | case3 s hs ih => simp [hr, hn, ih]
  | case4 c s hc hc' ih => rw [List.countP_cons, List.countP_cons, ih]

theorem isPrefix_of_unifyLineEnds {w s : Text} (hn : '\n' ∉ w) (h : w <+: unifyLineEnds s) :
    w <+: s := by
  have hline : ∀ {w u : Text}, '\n' ∉ w → w <+: '\n' :: u → w = [] := fun {w u} hn h => by
    rcases List.prefix_cons_iff.mp h with rfl | ⟨v, rfl, -⟩
    · rfl
    · exact absurd List.mem_cons_self hn
  fun_induction unifyLineEnds s generalizing w with
  | case1 => exact h
  | case2 s ih => exact hline hn h ▸ List.nil_prefix
  | case3 s hs ih => exact hline hn h ▸ List.nil_prefix
  | case4 c s hc hc' ih =>
    rcases List.prefix_cons_iff.mp h with rfl | ⟨v, rfl, hv⟩
    · exact List.nil_prefix
    · exact List.cons_prefix_cons.mpr ⟨rfl, ih (fun hm => hn (List.mem_cons_of_mem _ hm)) hv⟩

theorem exists_of_suffix_unifyLineEnds {t s : Text} (h : t <:+ unifyLineEnds s) :
    ∃ r, r <:+ s ∧ t = unifyLineEnds r := by
  fun_induction unifyLineEnds s with
  | case1 => exact ⟨[], List.suffix_rfl, List.suffix_nil.mp h⟩
  | case2 s ih =>
    rcases List.suffix_cons_iff.mp h with rfl | ht
    · exact ⟨_, List.suffix_rfl, by rw [unifyLineEnds]⟩
    · obtain ⟨r, hr, he⟩ := ih ht
      exact ⟨r, hr.trans ⟨['\r', '\n'], rfl⟩, he⟩
  | case3 s hs ih =>
    rcases List.suffix_cons_iff.mp h with rfl | ht
    · exact ⟨_, List.suffix_rfl, by rw [unifyLineEnds.eq_3 s hs]⟩
    · obtain ⟨r, hr, he⟩ := ih ht
      exact ⟨r, hr.trans (List.suffix_cons _ _), he⟩
  | case4 c s hc hc' ih =>
    rcases List.suffix_cons_iff.mp h with rfl | ht
    · exact ⟨_, List.suffix_rfl, by rw [unifyLineEnds.eq_4 c s hc hc']⟩
    · obtain ⟨r, hr, he⟩ := ih ht
      exact ⟨r, hr.trans (List.suffix_cons _ _), he⟩

theorem isInfix_of_unifyLineEnds {w s : Text} (hn : '\n' ∉ w) (h : w <:+: unifyLineEnds s) :
    w <:+: s := by
  obtain ⟨t, hw, ht⟩ := List.infix_iff_prefix_suffix.mp h
  obtain ⟨r, hr, rfl⟩ := exists_of_suffix_unifyLineEnds ht
  exact (isPrefix_of_unifyLineEnds hn hw).isInfix.trans hr.isInfix

end Coursework.Text
