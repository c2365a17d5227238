import Coursework.Proofs.Scene.Section

namespace Coursework.Scene.Section

open Text

variable {s : Section} {ps qs : Fields Text} {k u w : Text}

def upTo (s : Section) (ps : Fields Text) (k u : Text) : Section :=
  { s with properties := ps ++ [(k, u)] }

theorem text_eq (s : Section) :
    s.text = s.header ++ s.properties.flatMap (['\n'] ++ propertyText ·) := by
  rw [text, join_eq_append_flatMap, List.flatMap_map]

theorem text_upTo (hs : s.properties = ps ++ (k, u ++ '\n' :: w) :: qs) :
    s.text = (s.upTo ps k u).text ++
      '\n' :: (w ++ qs.flatMap (['\n'] ++ propertyText ·)) := by
  rw [text_eq, text_eq, hs]
  simp [upTo, header, propertyText]

theorem sectionsText_upTo (pre post : List Section)
    (hs : s.properties = ps ++ (k, u ++ '\n' :: w) :: qs) :
    sectionsText (pre ++ [s.upTo ps k u]) <+: sectionsText (pre ++ s :: post) := by
  induction pre with
  | nil =>
    have ht := text_upTo hs
    cases post with
    | nil => simp [sectionsText, join, ht]
    | cons t post => simp [sectionsText, join, ht]
  | cons t pre ih =>
    have hcons : ∀ ss : List Section, ss ≠ [] →
        sectionsText (t :: ss) = t.text ++ ['\n', '\n'] ++ sectionsText ss := by
      intro ss hss
      rw [sectionsText, List.map_cons, join_cons _ _ (by simpa using hss)]
      simp [sectionsText]
    rw [List.cons_append, List.cons_append, hcons _ (by simp), hcons _ (by simp)]
    exact (List.prefix_append_right_inj _).mpr ih

namespace Progress

theorem step_inside {p : Progress} (h : p.incomplete? = some (s, k, u)) (n : Nat) (l : Text) :
    p.step n l = .ok (p.setProperty s k (u ++ ['\n'] ++ l)) := by
  simp [step, h]

end Progress

theorem nodup_keys_upTo (hw : s.WellFormed)
    (hs : s.properties = ps ++ (k, u ++ '\n' :: w) :: qs) :
    (Keyed.keys ps).Nodup ∧ k ∉ Keyed.keys ps := by
  have hn := hw.propertyKeys
  rw [hs] at hn
  simp only [Keyed.keys_append, Keyed.keys_cons] at hn
  obtain ⟨hps, -, hd⟩ := List.nodup_append.mp hn
  refine ⟨hps, ?_⟩
  intro hk
  exact hd k hk k (by simp) rfl

theorem lines_upTo (hw : s.WellFormed)
    (hs : s.properties = ps ++ (k, u ++ '\n' :: w) :: qs) :
    lines (sectionsText [s.upTo ps k u]) =
      s.header :: ((ps.flatMap fun q => splitOn '\n' (propertyText q)) ++
        splitOn '\n' (propertyText (k, u))) := by
  have hfeeds : FeedsOnly (s.upTo ps k u).text := by
    have hf := feedsOnly_text hw
    rw [text_upTo hs] at hf
    exact (feedsOnly_append.mp hf).1
  have hheader : Unbroken (s.upTo ps k u).header := by
    have hh := unbroken_header hw
    exact hh
  simp only [sectionsText, List.map_cons, List.map_nil, join]
  rw [lines_append hfeeds, splitOn_text hheader]
  simp [upTo, header, lines]

theorem readLines_upTo {p : Progress} (hp : p.incomplete? = none) {pre : List Section}
    (h : ∀ t ∈ pre, t.WellFormed) (hw : s.WellFormed)
    (hs : s.properties = ps ++ (k, u ++ '\n' :: w) :: qs) (n : Nat) :
    ∃ q, readLines p n (lines (sectionsText (pre ++ [s.upTo ps k u]))) = .ok q ∧
      q.incomplete? = some (s.upTo ps k u, k, u) := by
  -- the sections before are read whole and leave the reader outside of any value
  induction pre generalizing p n with
  | nil =>
    obtain ⟨hnodup, hnew⟩ := nodup_keys_upTo hw hs
    have hps : Keyed.update [] ps = ps := by
      apply Keyed.update_of_nodup
      simpa using hnodup
    obtain ⟨hk, hv⟩ := hw.properties (k, u ++ '\n' :: w) (by simp [hs])
    have hopen : ∀ u' w', u = u' ++ '\n' :: w' → balanced u' = false := by
      intro u' w' hu
      apply hv.open_ u' (w' ++ '\n' :: w)
      simp [hu]
    have hvalues : ∀ q ∈ ps, IsPropertyKey q.1 ∧ Entire q.2 :=
      fun q hq => hw.properties q (by simp [hs, hq])
    obtain ⟨key, hr, hi⟩ := readLines_properties
      (show Progress.incomplete? ⟨p.all, some ⟨s.tag, s.attributes, []⟩, none⟩ = none from rfl) rfl
      hvalues (n + 1)
    simp only [hps] at hr hi
    refine ⟨Progress.setProperty ⟨p.all, some ⟨s.tag, s.attributes, ps⟩, key⟩
      ⟨s.tag, s.attributes, ps⟩ k u, ?_, ?_⟩
    · rw [List.nil_append, lines_upTo hw hs, readLines, Progress.step_header hp n hw]
      change readLines _ (n + 1) _ = _
      rw [readLines_trans _ hr]
      exact readLines_property hi rfl hk hopen _
    · have hu : balanced u = false := hv.open_ u w rfl
      simp [Progress.incomplete?_setProperty, hu, Keyed.set_of_not_mem _ hnew, upTo]
  | cons t pre ih =>
    obtain ⟨q, hq, hi, -⟩ := readLines_text hp (h t (by simp)) n
    obtain ⟨q', hq', hi'⟩ := ih hi (fun x hx => h x (List.mem_cons_of_mem _ hx))
      (n + (splitOn '\n' t.text).length + 1)
    refine ⟨q', ?_, hi'⟩
    rw [List.cons_append, lines_sectionsText_cons (h t (by simp)) (by simp),
      readLines_trans _ hq, readLines, Progress.step_nil hi]
    exact hq'

theorem feedsOnly_sectionsText {ss : List Section} (h : ∀ s ∈ ss, s.WellFormed) :
    FeedsOnly (sectionsText ss) := by
  apply feedsOnly_append.mpr
  constructor
  · intro c hc hb
    rcases mem_join hc with hc | ⟨t, ht, hc⟩
    · simpa using hc
    · obtain ⟨s, hs, rfl⟩ := List.mem_map.mp ht
      exact feedsOnly_text (h s hs) c hc hb
  · intro c hc _
    exact List.mem_singleton.mp hc

theorem lines_upTo_prefix {pre post : List Section}
    (h : ∀ t ∈ pre ++ s :: post, t.WellFormed)
    (hs : s.properties = ps ++ (k, u ++ '\n' :: w) :: qs) :
    lines (sectionsText (pre ++ [s.upTo ps k u])) <+: lines (sectionsText (pre ++ s :: post)) := by
  obtain ⟨r, hr⟩ := sectionsText_upTo pre post hs
  have hf := feedsOnly_sectionsText h
  rw [← hr] at hf ⊢
  generalize ht : join ['\n', '\n'] ((pre ++ [s.upTo ps k u]).map text) = t
  have he : sectionsText (pre ++ [s.upTo ps k u]) = t ++ ['\n'] := by rw [sectionsText, ht]
  rw [he] at hf ⊢
  have htf := (feedsOnly_append.mp (feedsOnly_append.mp hf).1).1
  rw [List.append_assoc, List.singleton_append, lines_append htf, lines_append htf]
  simp [lines]

/-- No line of a value is taken for anything else. The lines before it leave the reader inside the
value, which any line then goes on with. -/
def KeepsValues (ss : List Section) : Prop :=
  ∀ pre s post ps k u w qs, ss = pre ++ s :: post →
    s.properties = ps ++ (k, u ++ '\n' :: w) :: qs →
    lines (sectionsText (pre ++ [s.upTo ps k u])) <+: lines (sectionsText ss) ∧
    ∃ p, readLines {} 1 (lines (sectionsText (pre ++ [s.upTo ps k u]))) = .ok p ∧
      ∀ n l, p.step n l = .ok (p.setProperty (s.upTo ps k u) k (u ++ ['\n'] ++ l))

theorem keepsValues {ss : List Section} (h : ∀ s ∈ ss, s.WellFormed) : KeepsValues ss := by
  rintro pre s post ps k u w qs rfl hs
  constructor
  · exact lines_upTo_prefix h hs
  · obtain ⟨p, hp, hi⟩ := readLines_upTo (show Progress.incomplete? {} = none from rfl)
      (fun t ht => h t (List.mem_append_left _ ht)) (h s (by simp)) hs 1
    exact ⟨p, hp, Progress.step_inside hi⟩

/-- Printing and reading sections undo each other, for what can be written and for what was read
from any text whose headers have complete values. -/
theorem codec_inverts (ss : List Section) :
    ((∀ s ∈ ss, s.WellFormed) → readAll (sectionsText ss) = .ok ss ∧ KeepsValues ss) ∧
    ∀ t, readAll t = .ok ss → (∀ s ∈ ss, ∀ a ∈ s.attributes, balanced a.2 = true) →
      (∀ s ∈ ss, s.WellFormed) ∧ readAll (sectionsText ss) = .ok ss ∧ KeepsValues ss := by
  constructor
  · intro h
    exact ⟨readAll_sectionsText h, keepsValues h⟩
  · intro t ht hb
    have h : ∀ s ∈ ss, s.WellFormed := by
      intro s hs
      exact wellFormed_of_readAll ht hs (hb s hs)
    exact ⟨h, readAll_sectionsText h, keepsValues h⟩

def bracketed : List Section := [
  ⟨"gd_scene", [("load steps", "[1, \"]\"]"), ("", "\"=\"")], []⟩,
  ⟨"label_1", [], [("text", "\"one\n[node name=\\\"B\\\"]\n\""), ("rows", "\x7b\n1: 2\n\x7d")]⟩]

def spacedText : Text :=
  "\n  \n[gd_scene   load steps=[1, \"]\"] =\"=\"]  \n[label_1]\n\n".toList ++
    "text = \"one\n[node name=\\\"B\\\"]\n\"\r\nrows = \x7b\n1: 2\n\x7d\n\t\n".toList

theorem codec_inverts_bracketed :
    (readAll (sectionsText bracketed) = .ok bracketed ∧ KeepsValues bracketed) ∧
    readAll spacedText = .ok bracketed ∧ ∀ s ∈ bracketed, s.WellFormed := by
  have hread : readAll spacedText = .ok bracketed := by decide +kernel
  have hwell : ∀ s ∈ bracketed, s.WellFormed := by decide +kernel
  have hbalanced : ∀ s ∈ bracketed, ∀ a ∈ s.attributes, balanced a.2 = true := by decide +kernel
  exact ⟨(codec_inverts bracketed).1 hwell, hread,
    ((codec_inverts bracketed).2 spacedText hread hbalanced).1⟩

end Coursework.Scene.Section
