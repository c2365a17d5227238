import Coursework.Proofs.Scene.Rereading
import Coursework.Proofs.Scene.Declared

namespace Coursework.Scene

open Text

namespace Forest

variable {f : Forest} {r a n : NodeId}

theorem Visit.firstOf_eq_find? {test : NodeId → Except Fault Bool} {p : NodeId → Bool}
    {ids : List NodeId} (h : ∀ x ∈ ids, test x = .ok (p x)) :
    Visit.firstOf test true ids = .ok (ids.find? p) := by
  induction ids with
  | nil => rfl
  | cons id ids ih =>
    have hid := h id (by simp)
    rw [List.find?_cons]
    cases hp : p id with
    | true => simp [Visit.firstOf, hid, hp]
    | false =>
      rw [hp] at hid
      simp only [Visit.firstOf, hid]
      apply ih
      intro x hx
      exact h x (List.mem_cons_of_mem _ hx)

namespace IsTree

theorem way_eq (h : f.IsTree r) {x : NodeId} (hx : f.Reaches r x) : f.way x = .ok (f.segments x) := by
  rw [way, if_pos (h.rises hx)]

theorem get?_eq (h : f.IsTree r) (ha : f.Reaches r a) {path : Text} {p : NodeId → Bool}
    (hp : ∀ x, f.Reaches a x → (f.segments x == f.segments a ++ steps path) = p x) :
    f.get? a path = .ok ((f.walk a).find? p) := by
  simp only [get?, h.way_eq ha, Visit.first?, h.visit_ends ha]
  apply Visit.firstOf_eq_find?
  intro x hx
  have hax := (h.mem_walk_iff ha).mp hx
  rw [h.way_eq (ha.trans hax), ← hp x hax]
  rfl

theorem segments_prefix (h : f.IsTree r) (ha : f.Reaches r a) (hn : f.Reaches a n) :
    f.segments a <+: f.segments n := by
  induction hn with
  | refl => exact List.prefix_refl _
  | @tail p c hp hc ih =>
    have hrp := ha.trans hp
    rw [h.segments_eq (hrp.tail hc) (h.parent p c hrp hc)]
    exact ih.trans (List.prefix_append _ _)

end IsTree

def leads (w : Text) : Bool := w != [] && w != ['.']

theorem filter_leads {names : List Text} (h : Parts names) : names.filter leads = names := by
  rw [List.filter_eq_self]
  intro w hw
  obtain ⟨h1, h2, -⟩ := h w hw
  simp [leads, h1, h2]

theorem steps_join {names cs : List Text} (h : Parts names) (hc : cs.filter leads = names) :
    steps (Text.join ['/'] cs) = names := by
  have hslash : ∀ w ∈ cs, '/' ∉ w := by
    intro w hw
    cases hl : leads w with
    | true =>
      have hm : w ∈ names := by
        rw [← hc]
        exact List.mem_filter.mpr ⟨hw, hl⟩
      exact (h w hm).2.2
    | false =>
      simp only [leads, Bool.and_eq_false_iff, bne_eq_false_iff_eq] at hl
      rcases hl with rfl | rfl <;> decide
  cases cs with
  | nil => exact hc
  | cons w ws =>
    rw [steps, splitOn_join (by simp) hslash]
    exact hc

theorem Named.path_eq_iff (hf : f.Named r) (h : f.IsTree r) {x y : NodeId} (hx : f.Reaches r x)
    (hy : f.Reaches r y) : f.path x = f.path y ↔ f.segments x = f.segments y := by
  constructor
  · exact pathText_inj (hf.parts_segments h hx) (hf.parts_segments h hy)
  · intro he
    rw [path, path, he]

theorem Named.parts_rest (hf : f.Named r) (h : f.IsTree r) (hn : f.Reaches r n) {rest : List Text}
    (hr : f.segments n = f.segments a ++ rest) : Parts rest := by
  intro w hw
  apply hf.parts_segments h hn
  rw [hr]
  exact List.mem_append_right _ hw

theorem Named.get?_join (hf : f.Named r) (h : f.IsTree r) (ha : f.Reaches r a)
    (hn : f.Reaches a n) {rest cs : List Text} (hr : f.segments n = f.segments a ++ rest)
    (hc : cs.filter leads = rest) :
    f.get? a (Text.join ['/'] cs) = .ok ((f.walk a).find? fun x => f.path x == f.path n) := by
  have hrest := hf.parts_rest h (ha.trans hn) hr
  apply h.get?_eq ha
  intro x hax
  rw [steps_join hrest hc, ← hr, Bool.eq_iff_iff, beq_iff_eq, beq_iff_eq]
  exact (hf.path_eq_iff h (ha.trans hax) (ha.trans hn)).symm

/-- A lookup along the way from a node to one below it answers with the first node of the walk that
has that path. Components that lead nowhere change nothing, and no lookup leaves the subtree. -/
theorem lookup_follows_path (h : f.IsTree r) (hf : f.Named r) (ha : f.Reaches r a) :
    (∀ n, f.Reaches a n → ∃ rest m, f.segments n = f.segments a ++ rest ∧
      (f.walk a).find? (fun x => f.path x == f.path n) = some m ∧
      ((∀ x, f.Reaches a x → f.path x = f.path n → x = n) → m = n) ∧
      f.get? a (Text.join ['/'] rest) = .ok (some m) ∧
      ∀ cs, cs.filter leads = rest → f.get? a (Text.join ['/'] cs) = .ok (some m)) ∧
    ∀ path, ∃ o, f.get? a path = .ok o ∧ ∀ x, o = some x → f.Reaches a x := by
  constructor
  · intro n hn
    obtain ⟨rest, hrest⟩ := h.segments_prefix ha hn
    -- the node itself is met on the walk, so something with its path is found
    have hfound : ((f.walk a).find? fun x => f.path x == f.path n).isSome = true := by
      rw [List.find?_isSome]
      exact ⟨n, (h.mem_walk_iff ha).mpr hn, by simp⟩
    obtain ⟨m, hm⟩ := Option.isSome_iff_exists.mp hfound
    have hget : ∀ cs, cs.filter leads = rest → f.get? a (Text.join ['/'] cs) = .ok (some m) := by
      intro cs hc
      rw [hf.get?_join h ha hn hrest.symm hc, hm]
    refine ⟨rest, m, hrest.symm, hm, ?_, ?_, hget⟩
    · intro honly
      apply honly m
      · exact (h.mem_walk_iff ha).mp (List.mem_of_find?_eq_some hm)
      · simpa using List.find?_some hm
    · apply hget rest
      exact filter_leads (hf.parts_rest h (ha.trans hn) hrest.symm)
  · intro path
    refine ⟨_, h.get?_eq ha fun x _ => rfl, ?_⟩
    intro x hx
    exact (h.mem_walk_iff ha).mp (List.mem_of_find?_eq_some hx)

def doors : Forest := ⟨[
  { name := "Level", children := [1, 2, 3] },
  { name := "Door", parent := some 0 },
  { name := "Door", parent := some 0 },
  { name := "Player", attributes := [("instance", "ExtResource(1)")], parent := some 0,
    children := [4] },
  { name := "Hat", inner := "Body/Head", parent := some 3 }]⟩

theorem lookup_follows_path_doors :
    doors.get? 0 "Door" = .ok (some 1) ∧ doors.get? 0 "./Player//Body/./Head/Hat/" = .ok (some 4) ∧
      ∃ o, doors.get? 3 "../Door" = .ok o ∧ ∀ x, o = some x → doors.Reaches 3 x := by
  have hnested : doors.Nested := by decide
  have htree : doors.IsTree 0 := hnested.isTree (by decide)
  have hnamed : doors.Named 0 := by
    have hall : ∀ x < doors.size, Path.IsPart (doors.node x).name ∧
        Parts (doors.node x).innerNames := by decide
    exact ⟨fun x hx => (hall x (htree.lt_size hx)).1, fun x hx => (hall x (htree.lt_size hx)).2⟩
  refine ⟨?_, ?_, ?_⟩
  · obtain ⟨rest, m, hrest, hm, -, hget, -⟩ := (lookup_follows_path htree hnamed .refl).1 2
      (hnested.reaches (by decide))
    obtain rfl : ["Door".toList] = rest := hrest
    obtain rfl : 1 = m := Option.some.inj hm
    exact hget
  · obtain ⟨rest, m, hrest, hm, -, -, hget⟩ := (lookup_follows_path htree hnamed .refl).1 4
      (hnested.reaches (by decide))
    obtain rfl : ["Player".toList, "Body".toList, "Head".toList, "Hat".toList] = rest := hrest
    obtain rfl : 4 = m := Option.some.inj hm
    exact hget [".", "Player", "", "Body", ".", "Head", "Hat", ""] rfl
  · exact (lookup_follows_path htree hnamed (hnested.reaches (by decide))).2 "../Door"

end Forest

end Coursework.Scene
