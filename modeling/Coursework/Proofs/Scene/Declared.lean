import Coursework.Proofs.Scene.Placing

namespace Coursework.Scene

open Text

namespace Forest

theorem parts_steps (path : Text) : Parts (steps path) := by
  intro w hw
  obtain ⟨hs, hw⟩ := List.mem_filter.mp hw
  simp only [Bool.and_eq_true, bne_iff_ne] at hw
  exact ⟨hw.1, hw.2, Text.not_mem_of_mem_splitOn hs⟩

theorem steps_pathText {names : List Text} (h : Parts names) : steps (pathText names) = names := by
  by_cases hne : names = []
  · subst hne
    decide
  · rw [steps, splitOn_pathText h hne, List.filter_eq_self]
    intro w hw
    obtain ⟨h1, h2, -⟩ := h w hw
    simp [h1, h2]

variable {f : Forest}

theorem Hangs.exists_split {i : Nat} {names : List Text} (h : f.Hangs i (pathText names))
    (hn : Parts names) (hparts : ∀ q < i, Parts (f.segments q)) :
    ∃ q c : Nat, q < i ∧ f.parentOf i = some q ∧ c ≤ names.length ∧
      f.segments q = names.take c ∧ (f.node i).innerNames = names.drop c ∧
      ∀ d, c < d → d ≤ names.length → ∀ j < i, f.segments j ≠ names.take d := by
  rcases h with ⟨q, ⟨hq, hpath, -⟩, hpar, hin⟩ |
    ⟨c, q, hun, hc, ⟨hq, hpath, -⟩, hlong, -, hpar, hin⟩
  · refine ⟨q, names.length, hq, hpar, Nat.le_refl _, ?_, ?_, fun d h1 h2 => by omega⟩
    · rw [List.take_length]
      exact pathText_inj (hparts q hq) hn hpath
    · rw [List.drop_length]
      exact Node.innerNames_eq_nil.mpr hin
  · have hne : names ≠ [] := by
      rintro rfl
      have hdot : (Text.splitOn '/' (pathText [])).length = 1 := rfl
      obtain rfl : c = 0 := by omega
      exact hun q hq hpath
    rw [splitOn_pathText hn hne] at hc hpath hlong hin
    refine ⟨q, c, hq, hpar, Nat.le_of_lt hc, ?_, ?_, fun d h1 h2 j hj he => ?_⟩
    · exact pathText_inj (hparts q hq) (fun w hw => hn w (List.mem_of_mem_take hw)) hpath
    · exact Node.innerNames_join (fun w hw => hn w (List.mem_of_mem_drop hw)) hin
    · rcases Nat.lt_or_eq_of_le h2 with h2 | rfl
      · exact hlong d h1 h2 j hj (congrArg pathText he)
      · rw [List.take_length] at he
        exact hun j hj (congrArg pathText he)

end Forest

namespace Section

def declares (u : Section) : List Text :=
  match Keyed.get? u.attributes "parent".toList with
  | none => []
  | some v => Forest.steps (unquote v) ++
    [unquote ((Keyed.get? u.attributes "name".toList).getD [])]

variable {u : Section} {n : Node}

theorem declares_of_parent (h : n.IsRead u) {v : Text} {names : List Text} (hn : Parts names)
    (hv : Keyed.get? u.attributes "parent".toList = some v)
    (hp : unquote v = Forest.pathText names) : u.declares = names ++ [n.name] := by
  obtain ⟨name, hname, he⟩ := Option.map_eq_some_iff.mp h
  have hnn : unquote name = n.name := congrArg Node.name he
  simp only [declares, hv, hp, Forest.steps_pathText hn, hname, Option.getD_some, hnn]

theorem parts_declares (h : n.IsRead u) (hu : u.Plain) : Parts u.declares := by
  obtain ⟨name, hname, -⟩ := Option.map_eq_some_iff.mp h
  unfold declares
  split
  · exact parts_nil
  · rw [hname]
    exact (Forest.parts_steps _).append (parts_singleton (hu.name _ hname))

end Section

def Section.ComesAfter (w : Section) (before us : List Section) : Prop :=
  ∀ v, Keyed.get? w.attributes "parent".toList = some v → ∀ u ∈ us,
    u.declares <+: Forest.steps (unquote v) → u.declares ∈ before.map Section.declares

instance (w : Section) (before us : List Section) : Decidable (w.ComesAfter before us) :=
  inferInstanceAs (Decidable (∀ v ∈ Keyed.get? w.attributes "parent".toList, ∀ u ∈ us,
    u.declares <+: Forest.steps (unquote v) → u.declares ∈ before.map Section.declares))

def DeclaredEarly (us : List Section) : Prop :=
  ∀ (j : Nat) w, us[j]? = some w → w.ComesAfter (us.take j) us

instance (us : List Section) : Decidable (DeclaredEarly us) :=
  decidable_of_iff (∀ j < us.length, ∀ w ∈ us[j]?, w.ComesAfter (us.take j) us)
    ⟨fun h j w hw => h j (List.getElem?_eq_some_iff.mp hw).1 w hw, fun h j _ => h j⟩

namespace Progress.Follows

variable {p : Progress} {sections : List Section}

theorem exists_section (h : p.Follows sections) {i : Nat} (hi : i < p.scene.forest.size) :
    ∃ u, (nodeSections sections)[i]? = some u :=
  ⟨_, List.getElem?_eq_getElem (h.size ▸ hi)⟩

theorem segments_eq_declares (h : p.Follows sections)
    (hplain : ∀ u ∈ nodeSections sections, u.Plain) {i : Nat} {u : Section}
    (hu : (nodeSections sections)[i]? = some u) : p.scene.forest.segments i = u.declares := by
  induction i using Nat.strongRecOn generalizing u with
  | ind i ih =>
    have his : i < p.scene.forest.size := h.size ▸ (List.getElem?_eq_some_iff.mp hu).1
    by_cases hi : i = 0
    · subst hi
      rw [Forest.segments_of_none h.nested.top, Section.declares, h.top u hu]
    · obtain ⟨v, hv, hh⟩ := h.hangs i u (Nat.pos_of_ne_zero hi) hu
      obtain ⟨names, hn, hp⟩ := (hplain u (List.mem_of_getElem? hu)).pathText hv
      rw [hp] at hh
      obtain ⟨q, c, -, hpar, -, hq, hin, -⟩ := hh.exists_split hn fun q hq => by
        obtain ⟨w, hw⟩ := h.exists_section (Nat.lt_trans hq his)
        rw [ih q hq hw]
        exact Section.parts_declares (h.nodes q w hw) (hplain w (List.mem_of_getElem? hw))
      rw [h.nested.segments_eq hpar, hq, Node.steps_eq, hin, ← List.append_assoc,
        List.take_append_drop, Section.declares_of_parent (h.nodes i u hu) hn hv hp]

theorem parts (h : p.Follows sections) (hplain : ∀ u ∈ nodeSections sections, u.Plain) {i : Nat}
    (hi : i < p.scene.forest.size) : Parts (p.scene.forest.segments i) := by
  obtain ⟨u, hu⟩ := h.exists_section hi
  rw [h.segments_eq_declares hplain hu]
  exact Section.parts_declares (h.nodes i u hu) (hplain u (List.mem_of_getElem? hu))

theorem exists_split (h : p.Follows sections) (hplain : ∀ u ∈ nodeSections sections, u.Plain)
    {x q : Nat} (hq : p.scene.forest.parentOf x = some q) :
    ∃ u v, (nodeSections sections)[x]? = some u ∧
      Keyed.get? u.attributes "parent".toList = some v ∧
      Forest.steps (unquote v) = p.scene.forest.segments q ++ (p.scene.forest.node x).innerNames ∧
      ∀ j, 0 < j → j ≤ (p.scene.forest.node x).innerNames.length → ∀ y < x,
        p.scene.forest.segments y ≠
          p.scene.forest.segments q ++ (p.scene.forest.node x).innerNames.take j := by
  have hx : x < p.scene.forest.size := Forest.lt_size_of_parentOf hq
  have hx0 : 0 < x := by
    apply Nat.pos_of_ne_zero
    rintro rfl
    rw [h.nested.top] at hq
    cases hq
  obtain ⟨u, hu⟩ := h.exists_section hx
  obtain ⟨v, hv, hh⟩ := h.hangs x u hx0 hu
  obtain ⟨names, hn, hp⟩ := (hplain u (List.mem_of_getElem? hu)).pathText hv
  rw [hp] at hh
  obtain ⟨q', c, -, hpar, hc, hseg, hin, hnone⟩ :=
    hh.exists_split hn fun y hy => h.parts hplain (Nat.lt_trans hy hx)
  obtain rfl : q = q' := Option.some.inj (hq.symm.trans hpar)
  refine ⟨u, v, hu, hv, ?_, fun j hj hjl y hy => ?_⟩
  · rw [hp, Forest.steps_pathText hn, hseg, hin, List.take_append_drop]
  · rw [hin, List.length_drop] at hjl
    rw [hseg, hin, ← List.take_add]
    exact hnone (c + j) (by omega) (by omega) y hy

end Progress.Follows

end Coursework.Scene
