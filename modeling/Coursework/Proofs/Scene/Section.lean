import Mathlib.Data.List.TakeWhile
import Coursework.Proofs.Keyed
import Coursework.Proofs.Scene.Value
import Coursework.Scene.Basic

namespace Coursework.Scene.Section

open Text Nesting

/-! ### What can be written -/

def IsTag (t : Text) : Prop := ∃ c s, t = c :: s ∧ startsTag c = true ∧ ∀ d ∈ t, isWord d = true

structure IsHeaderKey (k : Text) : Prop where
  noSign : '=' ∉ k
  start : ∀ c s, k = c :: s → isBlank c = false
  unbroken : Unbroken k

def IsPropertyKey (k : Text) : Prop := ∃ c s, k = c :: s ∧ c ≠ '[' ∧ ∀ d ∈ k, inKey d = true

structure Entire (v : Text) : Prop where
  balanced : balanced v = true
  feedsOnly : FeedsOnly v
  open_ : ∀ u w, v = u ++ '\n' :: w → Scene.balanced u = false

structure WellFormed (s : Section) : Prop where
  tag : IsTag s.tag
  attributeKeys : (Keyed.keys s.attributes).Nodup
  attributes : ∀ a ∈ s.attributes, IsHeaderKey a.1 ∧ Unbroken a.2 ∧ Whole a.2
  propertyKeys : (Keyed.keys s.properties).Nodup
  properties : ∀ p ∈ s.properties, IsPropertyKey p.1 ∧ Entire p.2

instance : DecidablePred IsTag := fun t => match t with
  | [] => isFalse fun ⟨_, _, h, _⟩ => by cases h
  | c :: s => decidable_of_iff (startsTag c = true ∧ (c :: s).all isWord = true)
      ⟨fun h => ⟨c, s, rfl, h.1, List.all_eq_true.mp h.2⟩,
        fun ⟨_, _, h, hc⟩ => by cases h; exact ⟨hc.1, List.all_eq_true.mpr hc.2⟩⟩

instance : DecidablePred IsPropertyKey := fun k => match k with
  | [] => isFalse fun ⟨_, _, h, _⟩ => by cases h
  | c :: s => decidable_of_iff (c ≠ '[' ∧ (c :: s).all inKey = true)
      ⟨fun h => ⟨c, s, rfl, h.1, List.all_eq_true.mp h.2⟩,
        fun ⟨_, _, h, hc⟩ => by cases h; exact ⟨hc.1, List.all_eq_true.mpr hc.2⟩⟩

instance : DecidablePred IsHeaderKey := fun k =>
  decidable_of_iff ('=' ∉ k ∧ (k.head?.all fun c => !isBlank c) = true ∧ Unbroken k)
    ⟨fun h => ⟨h.1, fun c s hk => by simpa [hk] using h.2.1, h.2.2⟩,
      fun h => ⟨h.noSign, by
        cases k with
        | nil => rfl
        | cons c s => simpa using h.start c s rfl, h.unbroken⟩⟩

instance : DecidablePred Entire := fun v =>
  decidable_of_iff (balanced v = true ∧ FeedsOnly v ∧
      ∀ i, (h : i < v.length) → (v[i] == '\n') = true → balanced (v.take i) = false)
    ⟨fun h => ⟨h.1, h.2.1, fun u w hv =>
        (forall_split_iff v (· == '\n') (Scene.balanced · = false)).mpr h.2.2 u '\n' w hv rfl⟩,
      fun h => ⟨h.balanced, h.feedsOnly,
        (forall_split_iff v (· == '\n') (Scene.balanced · = false)).mp fun u c w hv hc =>
          h.open_ u w (by rw [hv, beq_iff_eq.mp hc])⟩⟩

instance : DecidablePred WellFormed := fun s =>
  decidable_of_iff (IsTag s.tag ∧ (Keyed.keys s.attributes).Nodup ∧
      (∀ a ∈ s.attributes, IsHeaderKey a.1 ∧ Unbroken a.2 ∧ Whole a.2) ∧
      (Keyed.keys s.properties).Nodup ∧ ∀ p ∈ s.properties, IsPropertyKey p.1 ∧ Entire p.2)
    ⟨fun ⟨h1, h2, h3, h4, h5⟩ => ⟨h1, h2, h3, h4, h5⟩,
      fun h => ⟨h.tag, h.attributeKeys, h.attributes, h.propertyKeys, h.properties⟩⟩

/-! ### Headers -/

theorem startsBlank_attributes (as : Fields Text) : StartsBlank (as.flatMap attributeText) := by
  intro c s h
  cases as with
  | nil => simp at h
  | cons a as =>
    obtain ⟨rfl, -⟩ : ' ' = c ∧ _ := by simpa [attributeText] using h
    decide

theorem splitAttributes_step (s : Text) : splitAttributes s =
    match s.dropWhile isBlank with
    | [] => some []
    | c :: t => match (c :: t).dropWhile (· != '=') with
      | [] => none
      | _ :: r => (splitAttributes (cutValue r).2).map
          (((c :: t).takeWhile (· != '='), (cutValue r).1) :: ·) := by
  rw [splitAttributes]
  split
  · next hs => rw [hs]
  · next c t hs =>
    simp only [hs]
    split
    · next hr => rw [hr]
    · next d r hr => simp only [hr]

theorem splitAttributes_blank {c : Char} (hc : isBlank c = true) (s : Text) :
    splitAttributes (c :: s) = splitAttributes s := by
  rw [splitAttributes_step, splitAttributes_step s]
  simp only [List.dropWhile_cons, hc, if_true]

theorem splitAttributes_pair {k v r : Text} (hk : '=' ∉ k)
    (hstart : ∀ c t, k = c :: t → isBlank c = false) (hv : cutValue (v ++ r) = (v, r)) :
    splitAttributes (k ++ '=' :: (v ++ r)) = (splitAttributes r).map ((k, v) :: ·) := by
  have hn : ∀ c ∈ k, (c != '=') = true := by
    intro c hc
    rw [bne_iff_ne]
    rintro rfl
    exact hk hc
  have hd : (k ++ '=' :: (v ++ r)).dropWhile (· != '=') = '=' :: (v ++ r) := by
    rw [List.dropWhile_append_of_pos hn]
    simp
  have ht : (k ++ '=' :: (v ++ r)).takeWhile (· != '=') = k := by
    rw [List.takeWhile_append_of_pos hn]
    simp
  have hs : (k ++ '=' :: (v ++ r)).dropWhile isBlank = k ++ '=' :: (v ++ r) := by
    cases k with
    | nil => simp [show isBlank '=' = false by decide]
    | cons c k => simp [hstart c k rfl]
  obtain ⟨c, t, hc⟩ : ∃ c t, k ++ '=' :: (v ++ r) = c :: t := by cases k <;> simp
  rw [hc] at hd ht hs
  rw [splitAttributes_step, hc]
  simp only [hs, hd, ht, hv]

theorem splitAttributes_attributeText {a : Text × Text} (hk : IsHeaderKey a.1) (hv : Whole a.2)
    {r : Text} (hr : StartsBlank r) :
    splitAttributes (attributeText a ++ r) = (splitAttributes r).map (a :: ·) := by
  have he : attributeText a ++ r = ' ' :: (a.1 ++ '=' :: (a.2 ++ r)) := by simp [attributeText]
  rw [he, splitAttributes_blank (by decide)]
  exact splitAttributes_pair hk.noSign hk.start (cutValue_whole hv hr)

theorem splitAttributes_written {as : Fields Text}
    (h : ∀ a ∈ as, IsHeaderKey a.1 ∧ Unbroken a.2 ∧ Whole a.2) :
    splitAttributes (as.flatMap attributeText) = some as := by
  induction as with
  | nil => simp [splitAttributes]
  | cons a as ih =>
    obtain ⟨hk, -, hv⟩ := h a (by simp)
    rw [List.flatMap_cons, splitAttributes_attributeText hk hv (startsBlank_attributes as),
      ih fun b hb => h b (List.mem_cons_of_mem _ hb)]
    rfl

theorem readAttributes_written {s : Section} (h : s.WellFormed) :
    readAttributes (s.attributes.flatMap attributeText) = some s.attributes := by
  simp [readAttributes, splitAttributes_written h.attributes, Keyed.ofList_of_nodup h.attributeKeys]

theorem trimRight_concat {s : Text} {c : Char} (h : isBlank c = false) :
    trimRight (s ++ [c]) = s ++ [c] := by
  simp [trimRight, dropEndWhile, h]

theorem header?_written {s : Section} (h : s.WellFormed) :
    header? s.header = some (s.tag, s.attributes.flatMap attributeText) := by
  obtain ⟨c, t, ht, hc, hw⟩ := h.tag
  have hr : ∃ d r, s.attributes.flatMap attributeText ++ [']'] = d :: r ∧ isWord d = false := by
    cases hs : s.attributes with
    | nil => exact ⟨']', [], rfl, by decide +kernel⟩
    | cons a as => exact ⟨' ', _, rfl, by decide +kernel⟩
  obtain ⟨d, r, hd, hnw⟩ := hr
  have he : s.header = '[' :: c :: (t ++ (d :: r)) := by
    simp [header, ht, ← hd]
  have hdrop : (c :: (t ++ (d :: r))).dropWhile isWord = d :: r := by
    rw [← List.cons_append, ← ht, List.dropWhile_append_of_pos hw]
    simp [hnw]
  have htake : (c :: (t ++ (d :: r))).takeWhile isWord = s.tag := by
    rw [← List.cons_append, ← ht, List.takeWhile_append_of_pos hw]
    simp [hnw]
  rw [he, header?]
  simp only [hc, if_true, hdrop, htake]
  rw [← hd, trimRight_concat (by decide)]
  simp

/-! ### Reading written lines -/

theorem readLines_append (p : Progress) (n : Nat) (ls ms : List Text) :
    readLines p n (ls ++ ms) = readLines p n ls >>= fun q => readLines q (n + ls.length) ms := by
  induction ls generalizing p n with
  | nil => rfl
  | cons l ls ih =>
    simp only [List.cons_append, readLines, bind_assoc, List.length_cons]
    congr 1
    funext q
    rw [ih, Nat.add_assoc, Nat.add_comm 1]

theorem readLines_trans {p q : Progress} {n : Nat} {ls : List Text} (ms : List Text)
    (h : readLines p n ls = .ok q) :
    readLines p n (ls ++ ms) = readLines q (n + ls.length) ms := by
  rw [readLines_append, h]
  rfl

namespace Progress

theorem incomplete?_setProperty (p : Progress) (s : Section) (key value : Text) :
    (p.setProperty s key value).incomplete? = if balanced value then none
      else some ({ s with properties := Keyed.set s.properties key value }, key, value) := by
  simp [incomplete?, setProperty, Keyed.get?_set]

theorem step_incomplete {p : Progress} {s : Section} {key u : Text} (h : balanced u = false)
    (n : Nat) (l : Text) :
    (p.setProperty s key u).step n l = .ok (p.setProperty s key (u ++ '\n' :: l)) := by
  have hi : (p.setProperty s key u).incomplete? =
      some ({ s with properties := Keyed.set s.properties key u }, key, u) := by
    simp [incomplete?_setProperty, h]
  simp only [step, hi]
  simp [setProperty, Keyed.set_set]

theorem step_nil {p : Progress} (h : p.incomplete? = none) (n : Nat) : p.step n [] = .ok p := by
  simp only [step, h, header?, property?, blank, List.all_nil, if_true]
  split <;> rfl

theorem step_header {p : Progress} (h : p.incomplete? = none) (n : Nat) {s : Section}
    (hs : s.WellFormed) : p.step n s.header = .ok ⟨p.all, some ⟨s.tag, s.attributes, []⟩, none⟩ := by
  simp [step, h, header?_written hs, readAttributes_written hs]

end Progress

theorem not_mem_key {k : Text} (h : IsPropertyKey k) : '\n' ∉ k := by
  obtain ⟨c, s, rfl, -, hk⟩ := h
  intro hn
  exact absurd (hk _ hn) (by decide)

theorem property?_written {k : Text} (h : IsPropertyKey k) (v : Text) :
    property? (propertyText (k, v)) = some (k, v) := by
  obtain ⟨c, s, rfl, hc, hk⟩ := h
  have hb : inKey ' ' = false := by decide
  have ht : (c :: s ++ ' ' :: '=' :: ' ' :: v).takeWhile inKey = c :: s := by
    rw [List.takeWhile_append_of_pos hk]
    simp [hb]
  have hd : (c :: s ++ ' ' :: '=' :: ' ' :: v).dropWhile inKey = ' ' :: '=' :: ' ' :: v := by
    rw [List.dropWhile_append_of_pos hk]
    simp [hb]
  have he : propertyText (c :: s, v) = c :: s ++ ' ' :: '=' :: ' ' :: v := by simp [propertyText]
  rw [he, List.cons_append]
  rw [List.cons_append] at ht hd
  simp [property?, ht, hd, hk c, hc]

theorem header?_propertyText {k : Text} (h : IsPropertyKey k) (v : Text) :
    header? (propertyText (k, v)) = none := by
  obtain ⟨c, s, rfl, hc, -⟩ := h
  simp only [propertyText, List.cons_append]
  rw [header?.eq_2]
  rintro d r h
  exact hc (by simpa using (List.cons.inj h).1)

theorem readLines_value (p : Progress) (s : Section) (key u : Text) (n : Nat) (ls : List Text)
    (h : ∀ ms l ns, ls = ms ++ l :: ns → balanced (u ++ ms.flatMap (['\n'] ++ ·)) = false) :
    readLines (p.setProperty s key u) n ls =
      .ok (p.setProperty s key (u ++ ls.flatMap (['\n'] ++ ·))) := by
  induction ls generalizing u n with
  | nil => simp [readLines]
  | cons l ls ih =>
    have hu : balanced u = false := by simpa using h [] l ls rfl
    simp only [readLines, Progress.step_incomplete hu]
    change readLines (p.setProperty s key (u ++ '\n' :: l)) (n + 1) ls = _
    rw [ih]
    · simp
    · rintro ms m ns rfl
      simpa using h (l :: ms) m ns rfl

theorem readLines_property {p : Progress} {s : Section} (hp : p.incomplete? = none)
    (hs : p.current = some s) {k v : Text} (hk : IsPropertyKey k)
    (hv : ∀ u w, v = u ++ '\n' :: w → balanced u = false) (n : Nat) :
    readLines p n (splitOn '\n' (propertyText (k, v))) = .ok (p.setProperty s k v) := by
  obtain ⟨w, ls, hw⟩ := List.exists_cons_of_ne_nil (splitOn_ne_nil '\n' v)
  have hvw : v = w ++ ls.flatMap (['\n'] ++ ·) := by
    rw [← join_eq_append_flatMap, ← hw, join_splitOn]
  have hl : splitOn '\n' (propertyText (k, v)) = propertyText (k, w) :: ls := by
    have hkn : ∀ (k : Text), '\n' ∉ k → splitOn '\n' (k ++ v) = (k ++ w) :: ls := by
      intro k hk
      induction k with
      | nil => simpa using hw
      | cons c k ih =>
        simp only [List.mem_cons, not_or] at hk
        simp [splitOn, Ne.symm hk.1, ih hk.2]
    have hn : '\n' ∉ k ++ [' ', '=', ' '] := by
      simp [not_mem_key hk]
    simpa [propertyText] using hkn _ hn
  have hstep : p.step n (propertyText (k, w)) = .ok (p.setProperty s k w) := by
    simp [Progress.step, hp, hs, header?_propertyText hk, property?_written hk]
  rw [hl, readLines, hstep]
  change readLines (p.setProperty s k w) (n + 1) ls = _
  rw [readLines_value, ← hvw]
  rintro ms l ns rfl
  apply hv _ (l ++ ns.flatMap (['\n'] ++ ·))
  simp [hvw]

theorem readLines_properties {p : Progress} {s : Section} (hp : p.incomplete? = none)
    (hs : p.current = some s) {ps : Fields Text}
    (h : ∀ q ∈ ps, IsPropertyKey q.1 ∧ Entire q.2) (n : Nat) :
    ∃ key, readLines p n (ps.flatMap fun q => splitOn '\n' (propertyText q)) =
        .ok ⟨p.finished, some { s with properties := Keyed.update s.properties ps }, key⟩ ∧
      Progress.incomplete?
        ⟨p.finished, some { s with properties := Keyed.update s.properties ps }, key⟩ = none := by
  induction ps generalizing p s n with
  | nil =>
    obtain ⟨finished, current, key⟩ := p
    subst hs
    exact ⟨key, rfl, hp⟩
  | cons q ps ih =>
    obtain ⟨k, v⟩ := q
    obtain ⟨hk, hv⟩ := h (k, v) (by simp)
    have hq : (p.setProperty s k v).incomplete? = none := by
      simp [Progress.incomplete?_setProperty, hv.balanced]
    obtain ⟨key, hr, hi⟩ := ih hq rfl (fun q hq => h q (List.mem_cons_of_mem _ hq))
      (n + (splitOn '\n' (propertyText (k, v))).length)
    refine ⟨key, ?_, hi⟩
    rw [List.flatMap_cons, readLines_trans _ (readLines_property hp hs hk hv.open_ n)]
    exact hr

theorem isLineBreak_eq (c : Char) (h : isLineBreak c = true) :
    c ∈ ['\n', '\x0b', '\x0c', '\r', '\x1c', '\x1d', '\x1e', '\u0085', '\u2028', '\u2029'] := by
  have hn : ∀ n : Nat, c.toNat = n → c = Char.ofNat n := by
    rintro n rfl
    exact (Char.ofNat_toNat c).symm
  have h' : c.toNat = 10 ∨ c.toNat = 11 ∨ c.toNat = 12 ∨ c.toNat = 13 ∨ c.toNat = 28 ∨
      c.toNat = 29 ∨ c.toNat = 30 ∨ c.toNat = 0x85 ∨ c.toNat = 0x2028 ∨ c.toNat = 0x2029 := by
    simp only [isLineBreak, Bool.or_eq_true, Bool.and_eq_true, decide_eq_true_eq, beq_iff_eq] at h
    omega
  rcases h' with h' | h' | h' | h' | h' | h' | h' | h' | h' | h' <;>
    rw [hn _ h'] <;> decide

theorem isLineBreak_of_isWord {c : Char} (h : isWord c = true) : isLineBreak c = false := by
  have hall : (['\n', '\x0b', '\x0c', '\r', '\x1c', '\x1d', '\x1e', '\u0085', '\u2028',
      '\u2029'].all fun c => !isWord c) = true := by decide +kernel
  by_contra hb
  have hw := List.all_eq_true.mp hall c (isLineBreak_eq c (by simpa using hb))
  simp [h] at hw

theorem unbroken_header {s : Section} (h : s.WellFormed) : Unbroken s.header := by
  obtain ⟨-, -, -, -, ht⟩ := h.tag
  have hb : isLineBreak '[' = false ∧ isLineBreak ']' = false ∧ isLineBreak ' ' = false ∧
      isLineBreak '=' = false := by decide
  have ha : Unbroken (s.attributes.flatMap attributeText) := by
    intro c hc
    obtain ⟨a, ha, hc⟩ := List.mem_flatMap.mp hc
    obtain ⟨hk, hv, -⟩ := h.attributes a ha
    have hu : Unbroken (attributeText a) := by simp [attributeText, hb, hk.unbroken, hv]
    exact hu c hc
  have htag : Unbroken s.tag := fun c hc => isLineBreak_of_isWord (ht c hc)
  simp [header, hb, ha, htag]

theorem splitOn_text {s : Section} (h : Unbroken s.header) :
    splitOn '\n' s.text =
      s.header :: s.properties.flatMap fun p => splitOn '\n' (propertyText p) := by
  rw [text, splitOn_join_flatMap _ (by simp), List.flatMap_cons,
    splitOn_of_not_mem h.not_mem_lineFeed, List.flatMap_map]
  rfl

theorem feedsOnly_text {s : Section} (h : s.WellFormed) : FeedsOnly s.text := by
  intro c hc hb
  rcases mem_join hc with hc | ⟨w, hw, hc⟩
  · simpa using hc
  · rcases List.mem_cons.mp hw with rfl | hw
    · simp [unbroken_header h c hc] at hb
    · obtain ⟨p, hp, rfl⟩ := List.mem_map.mp hw
      obtain ⟨⟨d, k, hk, -, hin⟩, hv⟩ := h.properties p hp
      simp only [propertyText, List.mem_append] at hc
      rcases hc with (hc | hc) | hc
      · have hi := hin c hc
        simp [inKey, isBlank_of_isLineBreak hb] at hi
      · have hs : Unbroken [' ', '=', ' '] := by simp [isLineBreak]
        simp [hs c hc] at hb
      · exact hv.feedsOnly c hc hb

theorem readLines_text {p : Progress} (hp : p.incomplete? = none) {s : Section}
    (hs : s.WellFormed) (n : Nat) :
    ∃ q, readLines p n (splitOn '\n' s.text) = .ok q ∧ q.incomplete? = none ∧
      q.all = s :: p.all := by
  obtain ⟨key, hr, hi⟩ := readLines_properties
    (show Progress.incomplete? ⟨p.all, some ⟨s.tag, s.attributes, []⟩, none⟩ = none from rfl) rfl
    hs.properties (n + 1)
  have hu : Keyed.update [] s.properties = s.properties := by
    simpa using Keyed.update_of_nodup (show (Keyed.keys ([] ++ s.properties)).Nodup from
      hs.propertyKeys)
  simp only [hu] at hr hi
  refine ⟨_, ?_, hi, rfl⟩
  rw [splitOn_text (unbroken_header hs), readLines, Progress.step_header hp n hs]
  exact hr

theorem lines_sectionsText_cons {s : Section} (hs : s.WellFormed) {ss : List Section}
    (hne : ss ≠ []) :
    lines (sectionsText (s :: ss)) = splitOn '\n' s.text ++ [] :: lines (sectionsText ss) := by
  rw [sectionsText, List.map_cons, join_cons _ _ (by simpa using hne)]
  simp only [List.append_assoc, List.cons_append, List.nil_append]
  rw [lines_append (feedsOnly_text hs), lines_lineFeed]
  simp [sectionsText]

theorem readLines_sectionsText {p : Progress} (hp : p.incomplete? = none) {ss : List Section}
    (h : ∀ s ∈ ss, s.WellFormed) (n : Nat) :
    ∃ q, readLines p n (lines (sectionsText ss)) = .ok q ∧ q.all = ss.reverse ++ p.all := by
  -- the reader is between values after each section, so that the next header is one
  induction ss generalizing p n with
  | nil =>
    refine ⟨p, ?_, rfl⟩
    simp only [sectionsText, List.map_nil, join, List.nil_append, lines_lineFeed, lines, readLines,
      Progress.step_nil hp]
    rfl
  | cons s ss ih =>
    obtain ⟨q, hq, hi, ha⟩ := readLines_text hp (h s (by simp)) n
    by_cases hne : ss = []
    · subst hne
      refine ⟨q, ?_, by simp [ha]⟩
      simp only [sectionsText, List.map_cons, List.map_nil, join]
      rw [lines_append (feedsOnly_text (h s (by simp))), readLines_trans _ hq]
      rfl
    · obtain ⟨q', hq', ha'⟩ := ih hi (fun t ht => h t (List.mem_cons_of_mem _ ht))
        (n + (splitOn '\n' s.text).length + 1)
      refine ⟨q', ?_, by simp [ha', ha]⟩
      rw [lines_sectionsText_cons (h s (by simp)) hne, readLines_trans _ hq, readLines,
        Progress.step_nil hi]
      exact hq'

theorem unterminated?_eq_none {s : Section} :
    unterminated? s = none ↔ ∀ p ∈ s.properties, balanced p.2 = true := by
  simp [unterminated?]

theorem readAll_sectionsText {ss : List Section} (h : ∀ s ∈ ss, s.WellFormed) :
    readAll (sectionsText ss) = .ok ss := by
  obtain ⟨q, hq, ha⟩ := readLines_sectionsText (show Progress.incomplete? {} = none from rfl) h 1
  have hn : ss.findSome? unterminated? = none := by
    rw [List.findSome?_eq_none_iff]
    exact fun s hs => unterminated?_eq_none.mpr fun p hp => ((h s hs).properties p hp).2.balanced
  have he : q.all.reverse = ss := by
    rw [ha]
    simp [Progress.all]
  simp only [readAll, hq, bind, Except.bind, he, hn]

/-! ### Sections of any text -/

theorem splitAttributes_cases {s : Text} {as : List (Text × Text)}
    (h : splitAttributes s = some as) :
    as = [] ∨ ∃ b k v bs, s = b ++ k ++ '=' :: v ∧ '=' ∉ k ∧
      (∀ c t, k = c :: t → isBlank c = false) ∧ as = (k, (cutValue v).1) :: bs ∧
      splitAttributes (cutValue v).2 = some bs := by
  have hs' := List.takeWhile_append_dropWhile (p := isBlank) (l := s)
  rw [splitAttributes] at h
  split at h
  · exact .inl (by simpa using h.symm)
  · next c t hs =>
    have hc : isBlank c = false := by
      have := List.head_dropWhile_not isBlank (l := s) (by simp [hs])
      simpa [hs] using this
    have hr' := List.takeWhile_append_dropWhile (p := (· != '=')) (l := c :: t)
    split at h
    · simp at h
    · next d v hr =>
      obtain rfl : d = '=' := by
        have := List.head_dropWhile_not (· != '=') (l := c :: t) (by simp [hr])
        simpa [hr] using this
      obtain ⟨bs, hbs, rfl⟩ := Option.map_eq_some_iff.mp h
      rw [hr] at hr'
      refine .inr ⟨s.takeWhile isBlank, (c :: t).takeWhile (· != '='), v, bs, ?_, ?_, ?_, rfl, hbs⟩
      · rw [List.append_assoc, hr', ← hs, hs']
      · intro he
        simpa using List.mem_takeWhile_imp he
      · intro e r he
        rw [List.takeWhile_cons] at he
        split at he
        · obtain ⟨rfl, -⟩ := List.cons.inj he
          exact hc
        · simp at he

structure Split (s : Text) (a : Text × Text) : Prop where
  noSign : '=' ∉ a.1
  start : ∀ c t, a.1 = c :: t → isBlank c = false
  sub : ∀ c, c ∈ a.1 ∨ c ∈ a.2 → c ∈ s
  uncut : Uncut {} a.2

theorem split_of_mem_splitAttributes {s : Text} {as : List (Text × Text)}
    (h : splitAttributes s = some as) : ∀ a ∈ as, Split s a := by
  induction hn : s.length using Nat.strong_induction_on generalizing s as with
  | _ n ih =>
    subst hn
    rcases splitAttributes_cases h with rfl | ⟨b, k, v, bs, hs, hk, hstart, rfl, hbs⟩
    · simp
    · have hlen : (cutValue v).2.length < s.length := by
        have := length_cutValue_le v
        simp only [hs, List.length_append, List.length_cons]
        omega
      have hcut : ∀ c, c ∈ (cutValue v).1 ∨ c ∈ (cutValue v).2 → c ∈ s := by
        intro c hc
        rw [← List.mem_append, cutValue_append] at hc
        simp [hs, hc]
      intro a ha
      rcases List.mem_cons.mp ha with rfl | ha
      · refine ⟨hk, hstart, ?_, uncut_cutValueFrom _ v⟩
        rintro c (hc | hc)
        · simp [hs, hc]
        · exact hcut c (.inl hc)
      · have hsp := ih _ hlen hbs rfl a ha
        exact ⟨hsp.noSign, hsp.start, fun c hc => hcut c (.inr (hsp.sub c hc)), hsp.uncut⟩

theorem header?_sound {line tag as : Text} (h : header? line = some (tag, as)) :
    IsTag tag ∧ ∀ c ∈ as, c ∈ line := by
  unfold header? at h
  split at h
  · next c s =>
    by_cases hc : startsTag c = true
    · simp only [hc, if_true] at h
      split at h
      · obtain ⟨rfl, rfl⟩ := Prod.mk.inj (Option.some.inj h)
        have hw : isWord c = true := by
          simp only [startsTag, Bool.or_eq_true, beq_iff_eq] at hc
          rcases hc with hc | rfl
          · exact isWord_of_isAlphanum (by simp [Char.isAlphanum, hc])
          · decide
        refine ⟨⟨c, s.takeWhile isWord, by simp [hw], hc, fun d hd => ?_⟩, fun d hd => ?_⟩
        · exact List.mem_takeWhile_imp hd
        · have h1 := List.mem_of_mem_dropLast hd
          have h2 : d ∈ (c :: s).dropWhile isWord := by
            simp only [trimRight, dropEndWhile, List.mem_reverse] at h1
            exact List.mem_reverse.mp ((List.dropWhile_sublist _).subset h1)
          exact List.mem_cons_of_mem _ ((List.dropWhile_sublist _).subset h2)
      · simp at h
    · simp [hc] at h
  · simp at h

theorem property?_sound {line k v : Text} (h : property? line = some (k, v)) :
    IsPropertyKey k ∧ ∀ c ∈ v, c ∈ line := by
  unfold property? at h
  split at h
  · simp at h
  · next c s =>
    split at h
    · next hc =>
      simp only [Bool.and_eq_true, bne_iff_ne] at hc
      split at h
      · next w hw =>
        obtain ⟨rfl, rfl⟩ := Prod.mk.inj (Option.some.inj h)
        refine ⟨⟨c, s.takeWhile inKey, by simp [hc.1], hc.2, fun d hd => ?_⟩, fun d hd => ?_⟩
        · exact List.mem_takeWhile_imp hd
        · exact (List.dropWhile_sublist inKey).subset (by simp [hw, hd])
      · simp at h
    · simp at h

structure Growing (v : Text) : Prop where
  feedsOnly : FeedsOnly v
  open_ : ∀ u w, v = u ++ '\n' :: w → Scene.balanced u = false

theorem Growing.of_unbroken {v : Text} (h : Unbroken v) : Growing v where
  feedsOnly := h.feedsOnly
  open_ := by
    rintro u w rfl
    exact absurd (by simp) h.not_mem_lineFeed

theorem Growing.grow {v l : Text} (h : Growing v) (hv : balanced v = false) (hl : Unbroken l) :
    Growing (v ++ '\n' :: l) where
  feedsOnly := by
    have hn : FeedsOnly ('\n' :: l) := by
      intro c hc hb
      rcases List.mem_cons.mp hc with rfl | hc
      · rfl
      · simp [hl c hc] at hb
    exact feedsOnly_append.mpr ⟨h.feedsOnly, hn⟩
  open_ := by
    intro u w hu
    rcases List.append_eq_append_iff.mp hu with ⟨m, rfl, hm⟩ | ⟨m, rfl, hm⟩
    · cases m with
      | nil => simpa using hv
      | cons c m =>
        obtain ⟨-, rfl⟩ := List.cons.inj hm
        exact absurd (by simp) hl.not_mem_lineFeed
    · cases m with
      | nil => simpa using hv
      | cons c m =>
        obtain ⟨rfl, -⟩ := List.cons.inj hm
        exact h.open_ u m (by simp)

structure Draft (s : Section) : Prop where
  tag : IsTag s.tag
  attributeKeys : (Keyed.keys s.attributes).Nodup
  attributes : ∀ a ∈ s.attributes, IsHeaderKey a.1 ∧ Unbroken a.2 ∧ Uncut {} a.2
  propertyKeys : (Keyed.keys s.properties).Nodup
  properties : ∀ p ∈ s.properties, IsPropertyKey p.1 ∧ Growing p.2

theorem Draft.set {s : Section} (h : s.Draft) {k v : Text} (hk : IsPropertyKey k)
    (hv : Growing v) : Draft { s with properties := Keyed.set s.properties k v } where
  tag := h.tag
  attributeKeys := h.attributeKeys
  attributes := h.attributes
  propertyKeys := Keyed.nodup_keys_set h.propertyKeys k v
  properties := by
    intro p hp
    rcases Keyed.mem_set hp with hp | rfl
    · exact h.properties p hp
    · exact ⟨hk, hv⟩

theorem draft_of_header {line tag as : Text} {fields : Fields Text} (hl : Unbroken line)
    (hh : header? line = some (tag, as)) (hf : readAttributes as = some fields) :
    Draft ⟨tag, fields, []⟩ := by
  obtain ⟨bs, hbs, rfl⟩ := Option.map_eq_some_iff.mp hf
  obtain ⟨ht, hsub⟩ := header?_sound hh
  refine ⟨ht, Keyed.nodup_keys_ofList bs, fun a ha => ?_, by simp, by simp⟩
  have hs := split_of_mem_splitAttributes hbs a (Keyed.mem_of_mem_ofList ha)
  have hu : ∀ c, c ∈ a.1 ∨ c ∈ a.2 → isLineBreak c = false := fun c hc => hl c (hsub c (hs.sub c hc))
  exact ⟨⟨hs.noSign, hs.start, fun c hc => hu c (.inl hc)⟩, fun c hc => hu c (.inr hc), hs.uncut⟩

namespace Progress

def Drafts (p : Progress) : Prop := ∀ s ∈ p.all, s.Draft

theorem Drafts.current {p : Progress} (h : p.Drafts) {s : Section} (hs : p.current = some s) :
    s.Draft := h s (by simp [all, hs])

theorem Drafts.setProperty {p : Progress} (h : p.Drafts) {s : Section} (hs : s.Draft) {k v : Text}
    (hk : IsPropertyKey k) (hv : Growing v) : (p.setProperty s k v).Drafts := by
  intro t ht
  simp only [all, Progress.setProperty, Option.toList_some, List.cons_append, List.nil_append,
    List.mem_cons] at ht
  rcases ht with rfl | ht
  · exact hs.set hk hv
  · exact h t (by simp [all, ht])

theorem incomplete?_eq_some {p : Progress} {s : Section} {key value : Text}
    (h : p.incomplete? = some (s, key, value)) :
    p.current = some s ∧ (key, value) ∈ s.properties ∧ balanced value = false := by
  obtain ⟨t, ht, h⟩ := Option.bind_eq_some_iff.mp h
  obtain ⟨k, hk, h⟩ := Option.bind_eq_some_iff.mp h
  obtain ⟨v, hv, h⟩ := Option.bind_eq_some_iff.mp h
  by_cases hb : balanced v = true
  · simp [hb] at h
  · simp only [hb, if_false, Bool.false_eq_true, Option.some.injEq, Prod.mk.injEq] at h
    obtain ⟨rfl, rfl, rfl⟩ := h
    exact ⟨ht, Keyed.mem_of_get? hv, by simpa using hb⟩

theorem Drafts.step {p q : Progress} {n : Nat} {line : Text} (hp : p.Drafts) (hl : Unbroken line)
    (h : p.step n line = .ok q) : q.Drafts := by
  unfold Progress.step at h
  split at h
  · next s key value hi =>
    obtain ⟨hs, hm, hb⟩ := incomplete?_eq_some hi
    obtain ⟨hk, hv⟩ := (hp.current hs).properties _ hm
    obtain rfl := Except.ok.inj h
    simpa using hp.setProperty (hp.current hs) hk (hv.grow hb hl)
  · split at h
    · next tag as hh =>
      split at h
      · next fields hf =>
        obtain rfl := Except.ok.inj h
        intro t ht
        rcases List.mem_cons.mp ht with rfl | ht
        · exact draft_of_header hl hh hf
        · exact hp t ht
      · simp at h
    · split at h
      · split at h
        · obtain rfl := Except.ok.inj h
          exact hp
        · simp at h
      · next s hs =>
        split at h
        · next key value hpr =>
          obtain ⟨hk, hsub⟩ := property?_sound hpr
          obtain rfl := Except.ok.inj h
          exact hp.setProperty (hp.current hs) hk (.of_unbroken (hl.sub hsub))
        · split at h
          · obtain rfl := Except.ok.inj h
            exact hp
          · simp at h

end Progress

theorem drafts_readLines {p q : Progress} {n : Nat} {ls : List Text} (hp : p.Drafts)
    (hl : ∀ l ∈ ls, Unbroken l) (h : readLines p n ls = .ok q) : q.Drafts := by
  induction ls generalizing p n with
  | nil =>
    obtain rfl := Except.ok.inj h
    exact hp
  | cons l ls ih =>
    cases hs : p.step n l with
    | error e =>
      rw [readLines, hs] at h
      cases h
    | ok r =>
      rw [readLines, hs] at h
      exact ih (hp.step (hl l (by simp)) hs) (fun m hm => hl m (List.mem_cons_of_mem _ hm)) h

theorem draft_of_readAll {t : Text} {ss : List Section} (h : readAll t = .ok ss) {s : Section}
    (hs : s ∈ ss) : s.Draft ∧ unterminated? s = none := by
  cases hq : readLines {} 1 (lines t) with
  | error e =>
    rw [readAll, hq] at h
    cases h
  | ok q =>
    simp only [readAll, hq, bind, Except.bind] at h
    split at h
    · cases h
    · next hn =>
      obtain rfl := Except.ok.inj h
      have hq' : q.Drafts := drafts_readLines (by simp [Progress.Drafts, Progress.all])
        (fun l hl => unbroken_of_mem_lines hl) hq
      exact ⟨hq' s (List.mem_reverse.mp hs), List.findSome?_eq_none_iff.mp hn s hs⟩

theorem wellFormed_of_readAll {t : Text} {ss : List Section} (h : readAll t = .ok ss)
    {s : Section} (hs : s ∈ ss) (hb : ∀ a ∈ s.attributes, balanced a.2 = true) : s.WellFormed := by
  obtain ⟨hd, hn⟩ := draft_of_readAll h hs
  have hp := unterminated?_eq_none.mp hn
  refine ⟨hd.tag, hd.attributeKeys, fun a ha => ?_, hd.propertyKeys, fun p hp' => ?_⟩
  · obtain ⟨hk, hu, hc⟩ := hd.attributes a ha
    exact ⟨hk, hu, hb a ha, hc⟩
  · obtain ⟨hk, hg⟩ := hd.properties p hp'
    exact ⟨hk, hp p hp', hg.feedsOnly, hg.open_⟩

end Coursework.Scene.Section
