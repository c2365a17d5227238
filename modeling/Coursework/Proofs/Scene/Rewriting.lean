import Coursework.Proofs.Scene.Section
import Coursework.Proofs.Text.Replacing
import Coursework.Roots

/-!
Rewriting the values of sections: a rewriting that takes no notice of the marks of the format can be
done before the sections are written or after.
-/

namespace Coursework.Scene

open Text

def isMark (c : Char) : Bool :=
  isBlank c || isOpening c || isClosing c || c == '\x22' || c == '\\' || c == '=' || c == ','

/-- A rewriting that works between the marks. -/
structure Tame (f : Text → Text) : Prop where
  eq_nil : ∀ s, f s = [] ↔ s = []
  mark : ∀ s c r, isMark c = true → f (s ++ c :: r) = f s ++ c :: f r
  noMark : ∀ s c, isMark c = true → c ∈ f s → c ∈ s
  escape : ∀ s, f (escape s) = escape (f s)
  after : ∀ s (n : Nesting), n.after (f s) = n.after s

variable {old new w s : Text}

theorem escapeChar_cases (c : Char) :
    isMark c = true ∧ escapeChar c = ['\\', c] ∨ escapeChar c = [c] := by
  by_cases hb : c = '\\'
  · subst hb
    exact .inl ⟨by decide, by decide⟩
  · by_cases hq : c = '\x22'
    · subst hq
      exact .inl ⟨by decide, by decide⟩
    · exact .inr (by simp [escapeChar, hb, hq])

theorem escape_append (s r : Text) : escape (s ++ r) = escape s ++ escape r := by
  simp [escape]

theorem escape_of_not_mark (h : ∀ c ∈ w, isMark c = false) : escape w = w := by
  induction w with
  | nil => rfl
  | cons c w ih =>
    rw [List.forall_mem_cons] at h
    rw [escape_cons, ih h.2]
    rcases escapeChar_cases c with ⟨hm, -⟩ | he
    · rw [h.1] at hm
      cases hm
    · rw [he]
      rfl

theorem isPrefix_escape (h : ∀ c ∈ w, isMark c = false) : w <+: escape s ↔ w <+: s := by
  induction s generalizing w with
  | nil => rfl
  | cons c s ih =>
    cases w with
    | nil => simp
    | cons d w =>
      rw [List.forall_mem_cons] at h
      rw [escape_cons, List.cons_prefix_cons]
      rcases escapeChar_cases c with ⟨hm, he⟩ | he
      · have hc : d ≠ c := by
          rintro rfl
          rw [h.1] at hm
          cases hm
        have hb : d ≠ '\\' := by
          rintro rfl
          exact absurd h.1 (by decide)
        rw [he, List.cons_append, List.cons_prefix_cons]
        simp [hb, hc]
      · rw [he, List.singleton_append, List.cons_prefix_cons, ih h.2]

theorem escape_replace (hne : old ≠ []) (ho : ∀ c ∈ old, isMark c = false)
    (hn : ∀ c ∈ new, isMark c = false) (s : Text) :
    replace old new (escape s) = escape (replace old new s) := by
  have hmark : ∀ c r, isMark c = true → replace old new (c :: r) = c :: replace old new r := by
    intro c r hc
    apply replace_append_cons hne _ new []
    intro hm
    rw [ho c hm] at hc
    cases hc
  induction s using occurrence_induction hne with
  | nil => rfl
  | found s ih =>
    rw [escape_append, escape_of_not_mark ho, replace_found hne, replace_found hne, ih,
      escape_append, escape_of_not_mark hn]
  | cons c s hc ih =>
    rw [escape_cons, replace_cons hc, escape_cons, ← ih]
    rcases escapeChar_cases c with ⟨hm, he⟩ | he
    · rw [he]
      simp only [List.cons_append, List.nil_append]
      rw [hmark '\\' _ (by decide), hmark c _ hm]
    · rw [he, List.singleton_append, List.singleton_append]
      apply replace_cons
      rw [← isPrefix_escape ho, escape_cons, he] at hc
      exact hc

def Nesting.past (n : Nesting) : Nesting :=
  ⟨n.depth, if n.mode = .escaped then .quoted else n.mode⟩

theorem Nesting.step_of_not_mark (n : Nesting) {c : Char} (h : isMark c = false) :
    n.step c = n.past := by
  simp only [isMark, Bool.or_eq_false_iff, beq_eq_false_iff_ne] at h
  obtain ⟨d, m⟩ := n
  cases m <;> simp [Nesting.step, Nesting.past, h]

theorem Nesting.after_of_not_mark (n : Nesting) (hne : w ≠ []) (h : ∀ c ∈ w, isMark c = false) :
    n.after w = n.past := by
  induction w generalizing n with
  | nil => exact absurd rfl hne
  | cons c w ih =>
    rw [List.forall_mem_cons] at h
    rw [Nesting.after_cons, n.step_of_not_mark h.1]
    by_cases hw : w = []
    · rw [hw, Nesting.after_nil]
    · rw [ih n.past hw h.2]
      obtain ⟨d, m⟩ := n
      cases m <;> rfl

theorem after_replace (hne : old ≠ []) (hne' : new ≠ []) (ho : ∀ c ∈ old, isMark c = false)
    (hn : ∀ c ∈ new, isMark c = false) (s : Text) (n : Nesting) :
    n.after (replace old new s) = n.after s := by
  induction s using occurrence_induction hne generalizing n with
  | nil => rfl
  | found s ih =>
    rw [replace_found hne, Nesting.after_append, Nesting.after_append, n.after_of_not_mark hne ho,
      n.after_of_not_mark hne' hn, ih]
  | cons c s hc ih => rw [replace_cons hc, Nesting.after_cons, Nesting.after_cons, ih]

theorem tame_replace (hne : old ≠ []) (hne' : new ≠ []) (ho : ∀ c ∈ old, isMark c = false)
    (hn : ∀ c ∈ new, isMark c = false) : Tame (replace old new) where
  eq_nil _ := replace_eq_nil hne'
  mark s c r hc := by
    apply replace_append_cons hne
    intro hm
    rw [ho c hm] at hc
    cases hc
  noMark s c hc hm := by
    rcases mem_of_mem_replace hm with hm | hm
    · exact hm
    · rw [hn c hm] at hc
      cases hc
  escape := escape_replace hne ho hn
  after := after_replace hne hne' ho hn

namespace Tame

variable {f : Text → Text}

theorem nil (hf : Tame f) : f [] = [] := (hf.eq_nil []).mpr rfl

theorem cons (hf : Tame f) {c : Char} (hc : isMark c = true) (s : Text) : f (c :: s) = c :: f s := by
  have h := hf.mark [] c s hc
  rwa [hf.nil] at h

theorem marks (hf : Tame f) {m : Text} (hm : m.all isMark = true) (hne : m ≠ []) (s r : Text) :
    f (s ++ m ++ r) = f s ++ m ++ f r := by
  have hfront : ∀ m : Text, m.all isMark = true → f (m ++ r) = m ++ f r := by
    intro m hm
    induction m with
    | nil => rfl
    | cons c m ih =>
      rw [List.all_cons, Bool.and_eq_true] at hm
      rw [List.cons_append, hf.cons hm.1, ih hm.2, List.cons_append]
  cases m with
  | nil => exact absurd rfl hne
  | cons c m =>
    rw [List.all_cons, Bool.and_eq_true] at hm
    rw [List.append_assoc, List.append_assoc, List.cons_append, hf.mark s c _ hm.1, hfront m hm.2,
      List.cons_append]

theorem join (hf : Tame f) {m : Text} (hm : m.all isMark = true) (hne : m ≠ [])
    (ws : List Text) : f (Text.join m ws) = Text.join m (ws.map f) := by
  induction ws with
  | nil => exact hf.nil
  | cons w ws ih =>
    by_cases hw : ws = []
    · rw [hw]
      rfl
    · rw [join_cons m w hw, List.map_cons, join_cons m _ (by simpa using hw), hf.marks hm hne, ih]

theorem quote (hf : Tame f) (s : Text) : f (quote s) = Scene.quote (f s) := by
  have hq : isMark '\x22' = true := by decide
  rw [quote_eq, quote_eq, List.cons_append, hf.cons hq, hf.mark _ _ _ hq, hf.escape, hf.nil,
    List.cons_append]

theorem writeStrings (hf : Tame f) (ws : List Text) :
    f (writeStrings ws) = Scene.writeStrings (ws.map f) := by
  have hquotes : (ws.map Scene.quote).map f = (ws.map f).map Scene.quote := by
    simp only [List.map_map]
    exact List.map_congr_left fun w _ => hf.quote w
  rw [Scene.writeStrings, Scene.writeStrings, List.append_assoc, List.singleton_append,
    hf.cons (by decide), hf.mark _ _ _ (by decide), hf.join (by decide) (by decide), hquotes,
    hf.nil]
  simp

theorem isMark_of_isLineBreak {c : Char} (h : isLineBreak c = true) : isMark c = true := by
  simp [isMark, isBlank_of_isLineBreak h]

theorem unbroken (hf : Tame f) (h : Unbroken s) : Unbroken (f s) := by
  intro c hc
  by_contra hb
  rw [Bool.not_eq_false] at hb
  rw [h c (hf.noMark s c (isMark_of_isLineBreak hb) hc)] at hb
  cases hb

theorem feedsOnly (hf : Tame f) (h : FeedsOnly s) : FeedsOnly (f s) := fun c hc hb =>
  h c (hf.noMark s c (isMark_of_isLineBreak hb) hc) hb

theorem balanced (hf : Tame f) (s : Text) : balanced (f s) = Scene.balanced s := by
  rw [Scene.balanced, Scene.balanced, hf.after]

theorem split (hf : Tame f) {c : Char} (hc : isMark c = true) {u v : Text}
    (h : f s = u ++ c :: v) : ∃ u' v', s = u' ++ c :: v' ∧ f u' = u := by
  -- a mark is kept where it is, so that the texts are cut at their first marks together
  induction hn : s.length using Nat.strong_induction_on generalizing s u with
  | _ n ih =>
    subst hn
    obtain ⟨a, b, rfl, ha⟩ := List.eq_append_cons_of_mem (hf.noMark s c hc (by simp [h]))
    rw [hf.mark a c b hc] at h
    rcases List.append_eq_append_iff.mp h with ⟨m, rfl, hm⟩ | ⟨m, hm, hcons⟩
    · cases m with
      | nil => exact ⟨a, b, rfl, (List.append_nil _).symm⟩
      | cons d m =>
        obtain ⟨rfl, hb⟩ := List.cons.inj hm
        have hlt : b.length < (a ++ c :: b).length := by
          rw [List.length_append, List.length_cons]
          omega
        obtain ⟨u', v', rfl, rfl⟩ := ih b.length hlt hb rfl
        exact ⟨a ++ c :: u', v', by simp, hf.mark a c u' hc⟩
    · cases m with
      | nil => exact ⟨a, b, rfl, by simpa using hm⟩
      | cons d m =>
        obtain ⟨rfl, -⟩ := List.cons.inj hcons
        exact absurd (hf.noMark a c hc (by simp [hm])) ha

theorem whole (hf : Tame f) (h : Whole s) : Whole (f s) where
  balanced := (hf.balanced s).trans h.balanced
  uncut u c v hs hc := by
    obtain ⟨u', v', hs', rfl⟩ := hf.split (show isMark c = true by simp [isMark, hc]) hs
    rw [hf.balanced]
    exact h.uncut u' c v' hs' hc

theorem entire (hf : Tame f) (h : Section.Entire s) : Section.Entire (f s) where
  balanced := (hf.balanced s).trans h.balanced
  feedsOnly := hf.feedsOnly h.feedsOnly
  open_ u w hs := by
    obtain ⟨u', w', hs', rfl⟩ := hf.split (show isMark '\n' = true by decide) hs
    rw [hf.balanced]
    exact h.open_ u' w' hs'

end Tame

def Section.map (f : Text → Text) (s : Section) : Section :=
  ⟨s.tag, Keyed.mapValues f s.attributes, Keyed.mapValues f s.properties⟩

structure Section.Fixed (f : Text → Text) (s : Section) : Prop where
  tag : f s.tag = s.tag
  attributes : ∀ k ∈ Keyed.keys s.attributes, f k = k
  properties : ∀ k ∈ Keyed.keys s.properties, f k = k

namespace Tame

variable {f : Text → Text}

theorem attributes (hf : Tame f) {as : Fields Text} (h : ∀ k ∈ Keyed.keys as, f k = k)
    (w : Text) : f (w ++ as.flatMap Section.attributeText ++ [']']) =
      f w ++ (Keyed.mapValues f as).flatMap Section.attributeText ++ [']'] := by
  induction as generalizing w with
  | nil =>
    simp only [Keyed.mapValues, List.flatMap_nil, List.map_nil, List.append_nil]
    rw [hf.mark w ']' [] (by decide), hf.nil]
  | cons a as ih =>
    obtain ⟨k, v⟩ := a
    rw [Keyed.keys_cons, List.forall_mem_cons] at h
    have hsplit : w ++ ((k, v) :: as).flatMap Section.attributeText ++ [']'] =
        w ++ ' ' :: (k ++ '=' :: (v ++ as.flatMap Section.attributeText ++ [']'])) := by
      simp [Section.attributeText]
    rw [hsplit, hf.mark _ _ _ (by decide), hf.mark _ _ _ (by decide), h.1, ih h.2]
    simp [Section.attributeText, Keyed.mapValues]

theorem header (hf : Tame f) {s : Section} (h : s.Fixed f) : f s.header = (s.map f).header := by
  have hs : s.header = '[' :: (s.tag ++ s.attributes.flatMap Section.attributeText ++ [']']) := by
    simp [Section.header]
  rw [hs, hf.cons (by decide), hf.attributes h.attributes, h.tag]
  simp [Section.header, Section.map]

theorem propertyText (hf : Tame f) {p : Text × Text} (h : f p.1 = p.1) :
    f (Section.propertyText p) = Section.propertyText (p.1, f p.2) := by
  rw [Section.propertyText, hf.marks (by decide) (by decide), h, Section.propertyText]

theorem text (hf : Tame f) {s : Section} (h : s.Fixed f) : f s.text = (s.map f).text := by
  have hproperties : (s.properties.map Section.propertyText).map f =
      (s.map f).properties.map Section.propertyText := by
    simp only [Section.map, Keyed.mapValues, List.map_map]
    apply List.map_congr_left
    intro p hp
    exact hf.propertyText (h.properties p.1 (Keyed.mem_keys_of_mem hp))
  rw [Section.text, hf.join (by decide) (by decide), List.map_cons, hproperties, hf.header h,
    Section.text]

theorem sectionsText (hf : Tame f) {ss : List Section} (h : ∀ s ∈ ss, s.Fixed f) :
    f (sectionsText ss) = Scene.sectionsText (ss.map (Section.map f)) := by
  have htexts : (ss.map Section.text).map f = (ss.map (Section.map f)).map Section.text := by
    simp only [List.map_map]
    exact List.map_congr_left fun s hs => hf.text (h s hs)
  rw [Scene.sectionsText, hf.mark _ _ _ (by decide), hf.join (by decide) (by decide), htexts, hf.nil,
    Scene.sectionsText]

end Tame

theorem Section.WellFormed.map {f : Text → Text} (hf : Tame f) {s : Section} (h : s.WellFormed) :
    (s.map f).WellFormed := by
  constructor
  · exact h.tag
  · rw [Section.map, Keyed.keys_mapValues]
    exact h.attributeKeys
  · intro a ha
    obtain ⟨b, hb, rfl⟩ := List.mem_map.mp ha
    obtain ⟨hk, hu, hw⟩ := h.attributes b hb
    exact ⟨hk, hf.unbroken hu, hf.whole hw⟩
  · rw [Section.map, Keyed.keys_mapValues]
    exact h.propertyKeys
  · intro p hp
    obtain ⟨q, hq, rfl⟩ := List.mem_map.mp hp
    obtain ⟨hk, he⟩ := h.properties q hq
    exact ⟨hk, hf.entire he⟩

end Coursework.Scene
