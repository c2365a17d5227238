import Mathlib.Order.Bounds.Basic
import Mathlib.Logic.Relation
import Coursework.Proofs.Scene.Section

namespace Coursework.Scene

open Text Nesting Relation

variable {s w : Text} {start i : Nat}

theorem lt_length_of_getElem? {c : Char} (h : s[i]? = some c) : i < s.length :=
  (List.getElem?_eq_some_iff.mp h).1

theorem drop_of_getElem? {c : Char} (h : s[i]? = some c) : s.drop i = c :: s.drop (i + 1) := by
  obtain ⟨hi, rfl⟩ := List.getElem?_eq_some_iff.mp h
  exact List.drop_eq_getElem_cons hi

structure MayEnd (s : Text) (start i : Nat) : Prop where
  le : start ≤ i
  blank : ∃ c, s[i]? = some c ∧ isBlank c = true
  balanced : balanced (s.extract start i) = true

theorem MayEnd.lt_length (h : MayEnd s start i) : i < s.length := by
  obtain ⟨c, hc, -⟩ := h.blank
  exact lt_length_of_getElem? hc

theorem closed_of_cutValueFrom {n : Nesting} {c : Char} {r : Text}
    (h : (cutValueFrom n s).2 = c :: r) :
    isBlank c = true ∧ (n.after (cutValueFrom n s).1).closed = true := by
  induction s generalizing n with
  | nil => simp [cutValueFrom] at h
  | cons d s ih =>
    by_cases hd : (isBlank d && n.closed) = true
    · simp only [cutValueFrom, hd, if_true] at h ⊢
      obtain ⟨rfl, -⟩ := List.cons.inj h
      simpa using hd
    · simp only [cutValueFrom, hd, if_false, Bool.false_eq_true] at h ⊢
      exact ih h

theorem balanced_of_cutValue {c : Char} {r : Text} (h : (cutValue s).2 = c :: r) :
    isBlank c = true ∧ balanced (cutValue s).1 = true := closed_of_cutValueFrom h

theorem cutValue_of_uncut (h : Uncut {} w) : cutValue w = (w, []) := by
  have hcut := cutValueFrom_of_uncut h []
  rw [List.append_nil] at hcut
  rw [cutValue, hcut]
  simp [cutValueFrom]

theorem valueEnd_eq (h : start ≤ s.length) :
    valueEnd s start = start + (cutValue (s.drop start)).1.length := if_pos h

theorem extract_valueEnd (h : start ≤ s.length) :
    s.extract start (valueEnd s start) = (cutValue (s.drop start)).1 := by
  rw [valueEnd_eq h, List.extract_eq_take_drop, Nat.add_sub_cancel_left]
  nth_rewrite 2 [← cutValue_append (s.drop start)]
  exact List.take_left

theorem drop_valueEnd (h : start ≤ s.length) :
    s.drop (valueEnd s start) = (cutValue (s.drop start)).2 := by
  have hcut := cutValue_append (s.drop start)
  rw [valueEnd_eq h, ← List.drop_drop]
  nth_rewrite 2 [← hcut]
  exact List.drop_left

theorem valueEnd_le_length (h : start ≤ s.length) : valueEnd s start ≤ s.length := by
  have hcut := congrArg List.length (cutValue_append (s.drop start))
  rw [List.length_append, List.length_drop] at hcut
  rw [valueEnd_eq h]
  omega

theorem mayEnd_valueEnd (h : start ≤ s.length) (hend : valueEnd s start < s.length) :
    MayEnd s start (valueEnd s start) := by
  have hdrop := List.drop_eq_getElem_cons hend
  rw [drop_valueEnd h] at hdrop
  obtain ⟨hblank, hbalanced⟩ := balanced_of_cutValue hdrop
  refine ⟨?_, ⟨_, List.getElem?_eq_getElem hend, hblank⟩, ?_⟩
  · rw [valueEnd_eq h]
    omega
  · rwa [extract_valueEnd h]

theorem valueEnd_le_of_mayEnd (h : start ≤ s.length) (hi : MayEnd s start i) :
    valueEnd s start ≤ i := by
  by_contra hlt
  obtain ⟨c, hc, hblank⟩ := hi.blank
  generalize hcut : (cutValue (s.drop start)).1 = a
  have hn : i - start < a.length := by
    have := hi.le
    rw [valueEnd_eq h, hcut] at hlt
    omega
  have hs : s.drop start = a ++ (cutValue (s.drop start)).2 := by
    rw [← hcut, cutValue_append]
  have hchar : a[i - start]? = some c := by
    rw [← List.getElem?_append_left hn, ← hs, List.getElem?_drop, Nat.add_sub_cancel' hi.le, hc]
  -- Inside of the value no blank has a complete value in front of it.
  have hopen : balanced (a.take (i - start)) = false := by
    have huncut := uncut_cutValueFrom {} (s.drop start)
    apply huncut _ c (a.drop (i - start + 1)) _ hblank
    change (cutValue (s.drop start)).1 = _
    rw [hcut, ← drop_of_getElem? hchar, List.take_append_drop]
  have hbalanced := hi.balanced
  rw [List.extract_eq_take_drop, hs, List.take_append_of_le_length (by omega), hopen] at hbalanced
  cases hbalanced

theorem valueEnd_first (h : start ≤ s.length) :
    ((∃ i, MayEnd s start i) → IsLeast {i | MayEnd s start i} (valueEnd s start)) ∧
      ((¬ ∃ i, MayEnd s start i) → valueEnd s start = s.length) := by
  constructor
  · rintro ⟨i, hi⟩
    have hend := (valueEnd_le_of_mayEnd h hi).trans_lt hi.lt_length
    exact ⟨mayEnd_valueEnd h hend, fun j hj => valueEnd_le_of_mayEnd h hj⟩
  · intro hnone
    by_contra hne
    exact hnone ⟨_, mayEnd_valueEnd h ((valueEnd_le_length h).lt_of_ne hne)⟩

namespace Section

variable {x y : Nat × List (Text × Text)} {ps qs : List (Text × Text)}

theorem splitAttributes_eq_some_nil (hs : s.dropWhile isBlank = []) :
    splitAttributes s = some [] := by
  rw [splitAttributes_step]
  simp only [hs]

theorem splitAttributes_eq_none {c : Char} {t : Text} (hc : isBlank c = false)
    (ht : '=' ∉ c :: t) : splitAttributes (c :: t) = none := by
  have hblank : (c :: t).dropWhile isBlank = c :: t := by simp [hc]
  have hsign : (c :: t).dropWhile (· != '=') = [] := by
    apply List.dropWhile_eq_nil_iff.mpr
    intro d hd
    rw [bne_iff_ne]
    rintro rfl
    exact ht hd
  rw [splitAttributes_step]
  simp only [hblank, hsign]

/-- One turn of reading a header, from a place in it and the pairs so far: a blank is passed, or a
pair is read. Its key reaches up to the next equals sign, and its value up to its end. -/
inductive Turn (s : Text) : Nat × List (Text × Text) → Nat × List (Text × Text) → Prop
  | blank {i : Nat} {ps : List (Text × Text)} {c : Char} (hi : s[i]? = some c)
    (hc : isBlank c = true) : Turn s (i, ps) (i + 1, ps)
  | pair {i e : Nat} {ps : List (Text × Text)} {c : Char} (hi : s[i]? = some c)
    (hc : isBlank c = false) (hle : i ≤ e) (he : s[e]? = some '=') (hk : '=' ∉ s.extract i e) :
    Turn s (i, ps) (valueEnd s (e + 1),
      ps ++ [(s.extract i e, s.extract (e + 1) (valueEnd s (e + 1)))])

theorem Turn.forward (h : Turn s x y) : x.1 < y.1 ∧ y.1 ≤ s.length := by
  cases h with
  | blank hi hc =>
    exact ⟨Nat.lt_succ_self _, lt_length_of_getElem? hi⟩
  | @pair i e ps c hi hc hle he hk =>
    have hlt : e + 1 ≤ s.length := lt_length_of_getElem? he
    refine ⟨?_, valueEnd_le_length hlt⟩
    simp only [valueEnd_eq hlt]
    omega

theorem Turn.balanced (h : Turn s x y) {k v : Text} (hy : y.2 = x.2 ++ [(k, v)])
    (hend : y.1 < s.length) : balanced v = true := by
  cases h with
  | blank hi hc => simp at hy
  | pair hi hc hle he hk =>
    obtain ⟨-, rfl⟩ : _ ∧ _ = v := by simpa using hy
    exact (mayEnd_valueEnd (lt_length_of_getElem? he) hend).balanced

def outcome (s : Text) (x : Nat × List (Text × Text)) : Option (List (Text × Text)) :=
  (splitAttributes (s.drop x.1)).map (x.2 ++ ·)

theorem Turn.outcome_eq (h : Turn s x y) : outcome s x = outcome s y := by
  cases h with
  | blank hi hc => simp only [outcome, drop_of_getElem? hi, splitAttributes_blank hc]
  | @pair i e ps c hi hc hle he hk =>
    have hlt := lt_length_of_getElem? he
    have hdrop : s.drop i = s.extract i e ++ '=' :: s.drop (e + 1) := by
      have hsum : s.drop e = (s.drop i).drop (e - i) := by
        rw [List.drop_drop, Nat.add_sub_cancel' hle]
      rw [List.extract_eq_take_drop, ← drop_of_getElem? he, hsum, List.take_append_drop]
    have hstart : ∀ d t, s.extract i e = d :: t → isBlank d = false := by
      intro d t hd
      rw [drop_of_getElem? hi, hd] at hdrop
      obtain ⟨rfl, -⟩ := List.cons.inj hdrop
      exact hc
    have hcut := cutValue_append (s.drop (e + 1))
    have hsplit := splitAttributes_pair (v := (cutValue (s.drop (e + 1))).1)
      (r := (cutValue (s.drop (e + 1))).2) hk hstart (by rw [hcut])
    rw [hcut, ← hdrop] at hsplit
    simp only [outcome, hsplit, drop_valueEnd hlt, extract_valueEnd hlt, Option.map_map]
    congr 1
    funext as
    simp

theorem exists_turn (hi : i < s.length) (h : (outcome s (i, ps)).isSome) :
    ∃ y, Turn s (i, ps) y := by
  have hget := List.getElem?_eq_getElem hi
  by_cases hc : isBlank s[i] = true
  · exact ⟨_, .blank hget hc⟩
  · have hc' : isBlank s[i] = false := by simpa using hc
    rw [outcome, drop_of_getElem? hget, Option.isSome_map] at h
    have hmem : '=' ∈ s[i] :: s.drop (i + 1) := by
      by_contra hno
      rw [splitAttributes_eq_none hc' hno] at h
      cases h
    obtain ⟨k, r, hk, hno⟩ := List.eq_append_cons_of_mem hmem
    rw [← drop_of_getElem? hget] at hk
    have hle : i ≤ i + k.length := Nat.le_add_right i k.length
    have he : s[i + k.length]? = some '=' := by
      rw [← List.getElem?_drop, hk, List.getElem?_append_right le_rfl]
      simp
    have hkey : s.extract i (i + k.length) = k := by
      rw [List.extract_eq_take_drop, Nat.add_sub_cancel_left, hk, List.take_left]
    exact ⟨_, .pair hget hc' hle he (by rwa [hkey])⟩

theorem run_of_outcome (hi : i ≤ s.length) (h : outcome s (i, ps) = some qs) :
    ReflTransGen (Turn s) (i, ps) (s.length, qs) := by
  induction hn : s.length - i using Nat.strong_induction_on generalizing i ps with
  | _ n ih =>
    rcases hi.eq_or_lt with rfl | hlt
    · obtain rfl : ps = qs := by simpa [outcome, splitAttributes] using h
      exact .refl
    · obtain ⟨⟨j, rs⟩, hturn⟩ := exists_turn hlt (by rw [h]; rfl)
      obtain ⟨hij, hj⟩ := hturn.forward
      have hrest := ih (s.length - j) (by simp only at hij hj; omega) hj
        (hturn.outcome_eq ▸ h) rfl
      exact hrest.head hturn

theorem outcome_of_run (h : ReflTransGen (Turn s) x y) : outcome s x = outcome s y := by
  induction h with
  | refl => rfl
  | tail _ hturn ih => exact ih.trans hturn.outcome_eq

theorem splitAttributes_iff_run :
    splitAttributes s = some ps ↔ ReflTransGen (Turn s) (0, []) (s.length, ps) := by
  have hzero : outcome s (0, []) = splitAttributes s := by simp [outcome]
  have hend : outcome s (s.length, ps) = some ps := by simp [outcome, splitAttributes]
  constructor
  · intro h
    exact run_of_outcome (Nat.zero_le _) (hzero.trans h)
  · intro h
    rw [← hzero, outcome_of_run h, hend]

def pairText (a : Text × Text) : Text := a.1 ++ ['='] ++ a.2

theorem splitAttributes_rejoined (h : splitAttributes s = some ps) :
    splitAttributes (join [' '] (ps.map pairText)) = some ps := by
  -- every pair that is cut off leaves a shorter header
  induction hn : s.length using Nat.strong_induction_on generalizing s ps with
  | _ n ih =>
    subst hn
    rcases splitAttributes_cases h with rfl | ⟨b, k, v, bs, hs, hk, hstart, rfl, hbs⟩
    · simp [join, splitAttributes]
    · have huncut : Uncut {} (cutValue v).1 := uncut_cutValueFrom {} v
      by_cases hne : bs = []
      · subst hne
        have he : join [' '] ([(k, (cutValue v).1)].map pairText) =
            k ++ '=' :: ((cutValue v).1 ++ []) := by
          simp [join, pairText]
        have hcut : cutValue ((cutValue v).1 ++ []) = ((cutValue v).1, []) := by
          rw [List.append_nil, cutValue_of_uncut huncut]
        rw [he, splitAttributes_pair hk hstart hcut, splitAttributes_eq_some_nil rfl]
        rfl
      · have he : join [' '] (((k, (cutValue v).1) :: bs).map pairText) =
            k ++ '=' :: ((cutValue v).1 ++ ' ' :: join [' '] (bs.map pairText)) := by
          rw [List.map_cons, join_cons _ _ (by simpa using hne)]
          simp [pairText]
        obtain ⟨c, r, hr⟩ : ∃ c r, (cutValue v).2 = c :: r := by
          apply List.exists_cons_of_ne_nil
          intro hr
          rw [hr, splitAttributes_eq_some_nil rfl] at hbs
          exact hne (Option.some.inj hbs).symm
        have hwhole : Whole (cutValue v).1 := ⟨(balanced_of_cutValue hr).2, huncut⟩
        have hspace : StartsBlank (' ' :: join [' '] (bs.map pairText)) := by
          intro d t hd
          obtain ⟨rfl, -⟩ := List.cons.inj hd
          decide
        have hlen : (cutValue v).2.length < s.length := by
          have := length_cutValue_le v
          simp only [hs, List.length_append, List.length_cons]
          omega
        rw [he, splitAttributes_pair hk hstart (cutValue_whole hwhole hspace),
          splitAttributes_blank (by decide), ih _ hlen hbs rfl]
        rfl

/-- A value ends at the first blank in front of which it is complete, or else with the text. So a
header is read to its very end, each turn further on, and a value in front of the end is complete.
The pairs that were read, written with a blank between them, are read again. -/
theorem ends_where_balanced (s : Text) :
    (∀ start ≤ s.length,
      ((∃ i, MayEnd s start i) → IsLeast {i | MayEnd s start i} (valueEnd s start)) ∧
      ((¬ ∃ i, MayEnd s start i) → valueEnd s start = s.length)) ∧
    (∀ x y, Turn s x y → x.1 < y.1 ∧ y.1 ≤ s.length ∧
      ∀ k v, y.2 = x.2 ++ [(k, v)] → y.1 < s.length → balanced v = true) ∧
    ∀ ps, (splitAttributes s = some ps ↔ ReflTransGen (Turn s) (0, []) (s.length, ps)) ∧
      (splitAttributes s = some ps → (Keyed.keys ps).Nodup →
        readAttributes s = some ps ∧
          readAttributes (join [' '] (ps.map pairText)) = some ps) := by
  refine ⟨fun start h => valueEnd_first h, fun x y h => ?_, fun ps => ⟨splitAttributes_iff_run, ?_⟩⟩
  · obtain ⟨hlt, hle⟩ := h.forward
    exact ⟨hlt, hle, fun k v => h.balanced⟩
  · intro h hkeys
    have hpairs : Keyed.ofList ps = ps := Keyed.ofList_of_nodup hkeys
    constructor
    · rw [readAttributes, h, Option.map_some, hpairs]
    · rw [readAttributes, splitAttributes_rejoined h, Option.map_some, hpairs]

def cutHeader : Text := "a=\"x ]y\"   b c=[1, \"]\"] e=(1 2 "

def cutPairs : List (Text × Text) :=
  [("a", "\"x ]y\""), ("b c", "[1, \"]\"]"), ("e", "(1 2 ")]

theorem ends_where_balanced_cut :
    IsLeast {i | MayEnd cutHeader 2 i} 8 ∧ readAttributes cutHeader = some cutPairs ∧
      readAttributes (join [' '] (cutPairs.map pairText)) = some cutPairs := by
  have hend : valueEnd cutHeader 2 = 8 := by decide +kernel
  have hmay : ∃ i, MayEnd cutHeader 2 i := by
    exact ⟨8, by decide, ⟨' ', by decide, by decide⟩, by decide +kernel⟩
  have hsplit : splitAttributes cutHeader = some cutPairs := by decide +kernel
  obtain ⟨hvalue, -, hheader⟩ := ends_where_balanced cutHeader
  have hfirst := (hvalue 2 (by decide)).1 hmay
  rw [hend] at hfirst
  exact ⟨hfirst, (hheader cutPairs).2 hsplit (by decide)⟩

end Section

def IsWritten (w : Text) : Prop := (∃ s, w = quote s) ∨ ∃ ws, w = writeStrings ws

theorem IsWritten.whole (h : IsWritten w) : Whole w := by
  rcases h with ⟨s, rfl⟩ | ⟨ws, rfl⟩
  · exact whole_quote s
  · exact whole_writeStrings ws

theorem valueEnd_whole (p : Text) {r : Text} (hw : Whole w) (hr : StartsBlank r) :
    valueEnd (p ++ w ++ r) p.length = p.length + w.length := by
  have hle : p.length ≤ (p ++ w ++ r).length := by simp
  rw [valueEnd_eq hle, List.append_assoc, List.drop_left, cutValue_whole hw hr]

/-- Strings and lists of strings are what they were before they were written. In a text they end
where they were written to end, if a blank or nothing follows, and a header gives them back whole
under any key. -/
theorem written_strings_whole :
    (∀ s, unquote (quote s) = s) ∧ (∀ ws, readStrings (writeStrings ws) = ws) ∧
    ∀ w, IsWritten w → balanced w = true ∧ ∀ p r, StartsBlank r →
      valueEnd (p ++ w ++ r) p.length = p.length + w.length ∧
      ∀ k, '=' ∉ k → (∀ c t, k = c :: t → isBlank c = false) →
        Section.splitAttributes (k ++ '=' :: (w ++ r)) =
          (Section.splitAttributes r).map ((k, w) :: ·) := by
  refine ⟨unquote_quote, readStrings_writeStrings, fun w hw => ⟨hw.whole.balanced, ?_⟩⟩
  intro p r hr
  refine ⟨valueEnd_whole p hw.whole hr, fun k hk hstart => ?_⟩
  exact Section.splitAttributes_pair hk hstart (cutValue_whole hw.whole hr)

def escapedText : Text := "a\\\" ]=, (\\"

theorem written_strings_whole_escaped :
    StartsBlank " b=1" ∧
    valueEnd ("a=" ++ writeStrings [escapedText, []] ++ " b=1") 2 =
      2 + (writeStrings [escapedText, []]).length ∧
    Section.splitAttributes (['a'] ++ '=' :: (writeStrings [escapedText, []] ++ " b=1")) =
      some [(['a'], writeStrings [escapedText, []]), (['b'], ['1'])] := by
  have hblank : StartsBlank " b=1" := by
    intro c s h
    obtain ⟨rfl, -⟩ := List.cons.inj h
    decide
  have hkey : ∀ c t, ['a'] = c :: t → isBlank c = false := by
    intro c t h
    obtain ⟨rfl, -⟩ := List.cons.inj h
    decide
  have hrest : Section.splitAttributes " b=1" = some [(['b'], ['1'])] := by decide +kernel
  obtain ⟨-, hvalue⟩ := written_strings_whole.2.2 (writeStrings [escapedText, []])
    (.inr ⟨_, rfl⟩)
  obtain ⟨hend, hheader⟩ := hvalue "a=" " b=1" hblank
  have hpair := hheader ['a'] (by decide) hkey
  rw [hrest] at hpair
  exact ⟨hblank, hend, hpair⟩

end Coursework.Scene
