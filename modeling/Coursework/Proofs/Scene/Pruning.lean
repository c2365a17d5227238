import Coursework.Proofs.Scene.Declared
import Coursework.Proofs.Scene.Editing

namespace Coursework.Scene

namespace Forest

variable {f g k : Forest}

structure CutFrom (g f : Forest) : Prop where
  size : g.size = f.size
  linked : g.Linked
  parent : ∀ x p, g.parentOf x = some p → f.parentOf x = some p
  steps : ∀ x p, g.parentOf x = some p → (g.node x).steps = (f.node x).steps

namespace CutFrom

theorem refl (h : f.Linked) : CutFrom f f := ⟨rfl, h, fun _ _ hp => hp, fun _ _ _ => rfl⟩

theorem remove (h : CutFrom g f) {id : NodeId} (hr : g.remove id = .ok k) : CutFrom k f := by
  have hsize := size_remove hr
  have hlinked := h.linked.remove hr
  unfold Forest.remove at hr
  split at hr
  · cases hr
  · next p hp =>
    have hps := h.linked.parent_lt hp
    have his : id < g.size := lt_size_of_parentOf hp
    have hcases : ∀ x q, k.parentOf x = some q → x ≠ id ∧ g.parentOf x = some q := by
      intro x q hq
      rw [parentOf_removeChild hps his hr] at hq
      split at hq
      · cases hq
      · next hx => exact ⟨hx, hq⟩
    refine ⟨hsize.trans h.size, hlinked, fun x q hq => ?_, fun x q hq => ?_⟩
    · exact h.parent x q (hcases x q hq).2
    · obtain ⟨hx, hq⟩ := hcases x q hq
      rw [← h.steps x q hq, node_removeChild hps his hr]
      simp only [Node.steps, if_neg hx]

theorem removeEach (h : CutFrom g f) (ids : List NodeId) : CutFrom (g.removeEach ids) f := by
  induction ids generalizing g with
  | nil => exact h
  | cons id ids ih =>
    cases hr : g.remove id with
    | error e =>
      have hstep : g.removeEach (id :: ids) = g.removeEach ids := by
        simp [Forest.removeEach, hr, Except.toOption]
      rw [hstep]
      exact ih h
    | ok k =>
      have hstep : g.removeEach (id :: ids) = k.removeEach ids := by
        simp [Forest.removeEach, hr, Except.toOption]
      rw [hstep]
      exact ih (h.remove hr)

theorem top (h : CutFrom g f) {r : NodeId} (hr : f.parentOf r = none) : g.parentOf r = none := by
  cases hg : g.parentOf r with
  | none => rfl
  | some p =>
    rw [h.parent r p hg] at hr
    cases hr

theorem isTree (h : CutFrom g f) {r : Nat} (hs : r < f.size) (hr : f.parentOf r = none) :
    g.IsTree r :=
  h.linked.isTree (h.size.symm ▸ hs) (h.top hr)

theorem parentOf_of_lists (h : CutFrom g f) {p c : NodeId} (hc : g.Lists p c) :
    f.parentOf c = some p :=
  h.parent c p ((h.linked.listed p c).mp hc)

theorem segments_eq (h : CutFrom g f) (hf : f.Linked) {r y : NodeId} (hr : f.parentOf r = none)
    (hy : g.Reaches r y) : g.segments y = f.segments y := by
  induction hy with
  | refl => rw [segments_of_none hr, segments_of_none (h.top hr)]
  | @tail p c _ hc ih =>
    have hp := (h.linked.listed p c).mp hc
    rw [h.linked.segments_eq hp, hf.segments_eq (h.parent c p hp), ih, h.steps c p hp]

end CutFrom

theorem segments_of_get? {top id : NodeId} {path : Text} (h : f.get? top path = .ok (some id)) :
    f.segments id = f.segments top ++ steps path := by
  have hway : ∀ {x names}, f.way x = .ok names → names = f.segments x := by
    intro x names hx
    unfold way at hx
    split at hx
    · exact (Except.ok.inj hx).symm
    · cases hx
  unfold get? at h
  split at h
  · cases h
  · next names hnames =>
    have ht := (Visit.found_of_firstOf h).2
    cases hid : f.way id with
    | error e =>
      rw [hid] at ht
      cases ht
    | ok ns =>
      rw [hid] at ht
      rw [← hway hid, ← hway hnames]
      exact beq_iff_eq.mp (Except.ok.inj ht)

end Forest

theorem lost_iff {declared current : List Text} {target : Text} :
    lost declared current target = true ↔ ∃ names, names ≠ [] ∧
      names <+: Forest.steps (unquote target) ∧ Forest.pathText names ∈ declared ∧
      Forest.pathText names ∉ current := by
  have hpath : ∀ names, names ≠ [] → names <+: Forest.steps (unquote target) →
      Forest.pathText names = Text.join ['/'] names := by
    intro names hne hn
    exact Forest.pathText_of_ne_nil (fun w hw => Forest.parts_steps _ w (hn.subset hw)) hne
  simp only [lost, List.any_eq_true, List.mem_range, Bool.and_eq_true, List.contains_iff_mem,
    Bool.not_eq_true', Bool.eq_false_iff, ne_eq]
  constructor
  · rintro ⟨n, hn, hd, hc⟩
    have hne : (Forest.steps (unquote target)).take (n + 1) ≠ [] := by
      rw [Ne, List.take_eq_nil_iff, not_or]
      exact ⟨Nat.succ_ne_zero n, List.ne_nil_of_length_pos (by omega)⟩
    have htake := List.take_prefix (n + 1) (Forest.steps (unquote target))
    rw [← hpath _ hne htake] at hd hc
    exact ⟨_, hne, htake, hd, hc⟩
  · rintro ⟨names, hne, hn, hd, hc⟩
    have hpos := List.length_pos_iff.mpr hne
    have hle := hn.length_le
    have htake : (Forest.steps (unquote target)).take (names.length - 1 + 1) = names := by
      rw [Nat.sub_add_cancel hpos]
      exact (List.prefix_iff_eq_take.mp hn).symm
    refine ⟨names.length - 1, by omega, ?_⟩
    rw [htake, ← hpath names hne hn]
    exact ⟨hd, hc⟩

def Section.ends (u : Section) : List Text :=
  ["from", "to"].filterMap fun key => Keyed.get? u.attributes (String.toList key)

theorem dangling_iff {declared current : List Text} {u : Section} :
    dangling declared current u = true ↔
      u.tag = "connection".toList ∧ ∃ v ∈ u.ends, lost declared current v = true := by
  simp only [dangling, Section.ends, Bool.and_eq_true, beq_iff_eq, List.any_eq_true,
    List.mem_filterMap]
  refine and_congr_right fun _ => ?_
  constructor
  · rintro ⟨key, hkey, hl⟩
    split at hl
    · cases hl
    · next v hv => exact ⟨v, ⟨key, hkey, hv⟩, hl⟩
  · rintro ⟨v, ⟨key, hkey, hv⟩, hl⟩
    refine ⟨key, hkey, ?_⟩
    rw [hv]
    exact hl

namespace Progress.Follows

variable {p : Progress} {sections : List Section} {g : Forest}

theorem mem_declared (h : p.Follows sections) {path : Text} : path ∈ Keyed.keys p.paths ↔
    ∃ x < p.scene.forest.size, p.scene.forest.path x = path := by
  rw [← not_iff_not, ← Keyed.get?_eq_none_iff]
  constructor
  · rintro hnone ⟨x, hx, hpath⟩
    obtain ⟨q, hq⟩ := Forest.exists_latest hx hpath
    rw [(h.paths path q).mpr hq] at hnone
    cases hnone
  · intro hnone
    cases hq : Keyed.get? p.paths path with
    | none => rfl
    | some q =>
      obtain ⟨hqs, hpath, -⟩ := (h.paths path q).mp hq
      exact absurd ⟨q, hqs, hpath⟩ hnone

theorem exists_left (h : p.Follows sections) (hplain : ∀ u ∈ nodeSections sections, u.Plain)
    (hearly : DeclaredEarly (nodeSections sections)) (hg : g.CutFrom p.scene.forest) {y : NodeId}
    (hy : g.Reaches 0 y) {x : Nat} (hx : x < p.scene.forest.size)
    (hxy : p.scene.forest.segments x <+: p.scene.forest.segments y) :
    ∃ z, g.Reaches 0 z ∧ p.scene.forest.segments z = p.scene.forest.segments x := by
  induction hy with
  | refl =>
    rw [Forest.segments_of_none h.nested.top, List.prefix_nil] at hxy
    exact ⟨0, .refl, by rw [Forest.segments_of_none h.nested.top, hxy]⟩
  | @tail q c hq hc ih =>
    have hpar := hg.parentOf_of_lists hc
    rw [h.nested.segments_eq hpar, Node.steps_eq, ← List.append_assoc, List.prefix_concat_iff] at hxy
    rcases hxy with heq | hxy
    · refine ⟨c, hq.tail hc, ?_⟩
      rw [h.nested.segments_eq hpar, Node.steps_eq, ← List.append_assoc, heq]
    · rcases List.prefix_or_prefix_of_prefix hxy (List.prefix_append _ _) with hxq | ⟨t, ht⟩
      · exact ih hxq
      · by_cases htn : t = []
        · exact ⟨q, hq, by rw [← ht, htn, List.append_nil]⟩
        · -- a node between a node and its parent was declared before, and there was none
          obtain ⟨w, v, hw, hv, hsteps, hnone⟩ := h.exists_split hplain hpar
          obtain ⟨u, hu⟩ := h.exists_section hx
          have hxu := h.segments_eq_declares hplain hu
          rw [← hsteps, hxu] at hxy
          obtain ⟨a, ha, hau⟩ := List.mem_map.mp
            (hearly c w hw v hv u (List.mem_of_getElem? hu) hxy)
          obtain ⟨i, hi, hia⟩ := List.mem_take_iff_getElem.mp ha
          have hic : i < c := by omega
          have hseg : p.scene.forest.segments i = p.scene.forest.segments x := by
            rw [hxu, ← hau, ← hia]
            exact h.segments_eq_declares hplain (List.getElem?_eq_getElem (by omega))
          rw [← hxu, hsteps, ← ht, List.prefix_append_right_inj] at hxy
          refine absurd ?_ (hnone t.length (List.length_pos_iff.mpr htn) hxy.length_le i hic)
          rw [hseg, ← ht, ← List.prefix_iff_eq_take.mp hxy]

end Progress.Follows

/-- Whether an end of a connection lies at or below the path of a node of `f` that is not among
the rest, the nodes of `g`, while none of the rest has that path. -/
def LosesEnd (f g : Forest) (rest : List NodeId) (target : Text) : Prop :=
  ∃ names, names ≠ [] ∧ names <+: Forest.steps (unquote target) ∧
    (∃ x < f.size, x ∉ rest ∧ f.path x = Forest.pathText names) ∧
    ∀ y ∈ rest, g.path y ≠ Forest.pathText names

namespace Progress.Follows

variable {p : Progress} {sections : List Section} {g : Forest} {rest : List NodeId} {v : Text}

theorem lost_iff_losesEnd (h : p.Follows sections)
    (hpaths : ∀ x ∈ rest, g.path x = p.scene.forest.path x) :
    lost (Keyed.keys p.paths) (rest.map g.path) v = true ↔ LosesEnd p.scene.forest g rest v := by
  rw [lost_iff]
  apply exists_congr
  intro names
  refine and_congr_right fun _ => and_congr_right fun _ => ?_
  rw [h.mem_declared, List.mem_map, not_exists]
  constructor
  · rintro ⟨⟨x, hx, hpath⟩, hnone⟩
    refine ⟨⟨x, hx, fun hr => hnone x ⟨hr, ?_⟩, hpath⟩, fun y hy he => hnone y ⟨hy, he⟩⟩
    rw [hpaths x hr, hpath]
  · rintro ⟨⟨x, hx, -, hpath⟩, hnone⟩
    exact ⟨⟨x, hx, hpath⟩, fun y ⟨hy, he⟩ => hnone y hy he⟩

theorem dangling_iff_losesEnd (h : p.Follows sections)
    (hpaths : ∀ x ∈ rest, g.path x = p.scene.forest.path x) (u : Section) :
    (!dangling (Keyed.keys p.paths) (rest.map g.path) u) = false ↔
      u.tag = "connection".toList ∧ ∃ v ∈ u.ends, LosesEnd p.scene.forest g rest v := by
  rw [Bool.not_eq_false', dangling_iff]
  simp only [h.lost_iff_losesEnd hpaths]

theorem mem_of_not_losesEnd (h : p.Follows sections)
    (hpaths : ∀ x ∈ rest, g.path x = p.scene.forest.path x) {us : List Section} {u : Section}
    (hu : u ∈ us) (hends : ∀ v ∈ u.ends, ¬ LosesEnd p.scene.forest g rest v) :
    u ∈ us.filter fun u => !dangling (Keyed.keys p.paths) (rest.map g.path) u := by
  refine List.mem_filter.mpr ⟨hu, ?_⟩
  rw [← Bool.not_eq_false, h.dangling_iff_losesEnd hpaths]
  rintro ⟨-, v, hv, hl⟩
  exact hends v hv hl

theorem segments_of_path (h : p.Follows sections) (hplain : ∀ u ∈ nodeSections sections, u.Plain)
    {path : Text} {names : List Text} (hn : names <+: Forest.steps path) {x : Nat}
    (hx : x < p.scene.forest.size) (hpath : p.scene.forest.path x = Forest.pathText names) :
    p.scene.forest.segments x = names :=
  Forest.pathText_inj (h.parts hplain hx)
    (fun w hw => Forest.parts_steps path w (hn.subset hw)) hpath

theorem not_losesEnd_of_mem (h : p.Follows sections)
    (hplain : ∀ u ∈ nodeSections sections, u.Plain)
    (hrest : ∀ x < p.scene.forest.size,
      p.scene.forest.segments x <+: Forest.steps (unquote v) → x ∈ rest) :
    ¬ LosesEnd p.scene.forest g rest v := by
  rintro ⟨names, -, hn, ⟨x, hx, hout, hpath⟩, -⟩
  apply hout
  apply hrest x hx
  rw [h.segments_of_path hplain hn hx hpath]
  exact hn

theorem not_losesEnd_of_get? (h : p.Follows sections)
    (hplain : ∀ u ∈ nodeSections sections, u.Plain)
    (hearly : DeclaredEarly (nodeSections sections)) (hg : g.CutFrom p.scene.forest)
    (hrest : ∀ x, x ∈ rest ↔ g.Reaches 0 x)
    (hpaths : ∀ x, g.Reaches 0 x → g.segments x = p.scene.forest.segments x)
    {y : NodeId} (hy : g.Reaches 0 y) (hfound : g.get? 0 (unquote v) = .ok (some y)) :
    ¬ LosesEnd p.scene.forest g rest v := by
  have hsteps : p.scene.forest.segments y = Forest.steps (unquote v) := by
    rw [← hpaths y hy, Forest.segments_of_get? hfound,
      Forest.segments_of_none (hg.top h.nested.top), List.nil_append]
  rintro ⟨names, -, hn, ⟨x, hx, -, hpath⟩, hnone⟩
  have hxn := h.segments_of_path hplain hn hx hpath
  rw [← hsteps, ← hxn] at hn
  obtain ⟨z, hz, hzx⟩ := h.exists_left hplain hearly hg hy hx hn
  apply hnone z ((hrest z).mpr hz)
  rw [Forest.path, hpaths z hz, hzx, hxn]

end Progress.Follows

structure Prunes (s : Scene) (g : Forest) (rest : List NodeId) (trailing : List Section) :
    Prop where
  root : s.root = some 0
  reached : ∀ x, x ∈ rest ↔ g.Reaches 0 x
  paths : ∀ x ∈ rest, g.path x = s.forest.path x
  drops : ∃ keep : Section → Bool, trailing = s.trailing.filter keep ∧
    ∀ u, keep u = false ↔ u.tag = "connection".toList ∧ ∃ v ∈ u.ends, LosesEnd s.forest g rest v
  others : trailing.filter (·.tag ≠ "connection".toList) =
    s.trailing.filter (·.tag ≠ "connection".toList)
  found : ∀ u ∈ s.trailing, (∀ v ∈ u.ends, ∃ y, g.get? 0 (unquote v) = .ok (some y)) → u ∈ trailing
  within : ∀ u ∈ s.trailing, (∀ v ∈ u.ends, ∀ x < s.forest.size,
    s.forest.segments x <+: Forest.steps (unquote v) → x ∈ rest) → u ∈ trailing
  unchanged : g = s.forest → trailing = s.trailing

/-- Pruning drops the connections behind the nodes that lead to a removed one, and nothing else. -/
theorem pruneConnections_of_read {t : Text} {sections : List Section} {s : Scene}
    (ht : Section.readAll t = .ok sections) (hs : Scene.read t = .ok s)
    (hplain : ∀ u ∈ nodeSections sections, u.Plain)
    (hearly : DeclaredEarly (nodeSections sections)) (ids : List NodeId) :
    ∃ rest trailing, { s with forest := s.forest.removeEach ids }.nodes = .ok rest ∧
      { s with forest := s.forest.removeEach ids }.pruneConnections =
        .ok { s with forest := s.forest.removeEach ids, trailing := trailing } ∧
      s.Prunes (s.forest.removeEach ids) rest trailing := by
  obtain ⟨sections', p, ht', h, hroot, hpos, rfl⟩ := Progress.follows_of_read hs
  obtain rfl : sections = sections' := Except.ok.inj (ht.symm.trans ht')
  have hlinked := h.nested.linked h.rootInner
  have hcut := (Forest.CutFrom.refl hlinked).removeEach ids
  -- from here on only that `g` is a cut of the tree counts, not how it came about
  generalize p.scene.forest.removeEach ids = g at hcut ⊢
  have htree := hcut.isTree hpos h.nested.top
  have hrest : ∀ x, x ∈ g.walk 0 ↔ g.Reaches 0 x := fun x => htree.mem_walk
  have hsegs : ∀ x, g.Reaches 0 x → g.segments x = p.scene.forest.segments x := fun x hx =>
    hcut.segments_eq hlinked h.nested.top hx
  have hpaths : ∀ x ∈ g.walk 0, g.path x = p.scene.forest.path x := fun x hx =>
    congrArg Forest.pathText (hsegs x ((hrest x).mp hx))
  have hnodes : { p.scene with forest := g, declared := Keyed.keys p.paths }.nodes =
      .ok (g.walk 0) := by
    simp only [Scene.nodes, hroot, htree.subtree_eq]
  refine ⟨g.walk 0, _, hnodes, ?_, hroot, hrest, hpaths,
    ⟨_, rfl, h.dangling_iff_losesEnd hpaths⟩, ?_, fun u hu hfound => ?_, fun u hu hends => ?_, ?_⟩
  · rw [pruneConnections, hnodes]
    rfl
  · rw [List.filter_filter]
    apply List.filter_congr
    intro u _
    by_cases hu : u.tag = "connection".toList
    · simp [hu]
    · have hkeep := (h.dangling_iff_losesEnd hpaths u).not.mpr fun hc => hu hc.1
      rw [Bool.not_eq_false] at hkeep
      rw [hkeep, Bool.and_true]
  · apply h.mem_of_not_losesEnd hpaths hu
    intro v hv
    obtain ⟨y, hy⟩ := hfound v hv
    exact h.not_losesEnd_of_get? hplain hearly hcut hrest hsegs
      ((hrest y).mp (Forest.mem_walk_of_get? hy)) hy
  · apply h.mem_of_not_losesEnd hpaths hu
    intro v hv
    exact h.not_losesEnd_of_mem hplain (hends v hv)
  · rintro rfl
    rw [List.filter_eq_self]
    intro u hu
    have hall : ∀ v ∈ u.ends, ¬ LosesEnd p.scene.forest p.scene.forest _ v := fun v _ =>
      h.not_losesEnd_of_mem hplain fun x hx _ => (hrest x).mpr (h.nested.reaches hx)
    exact (List.mem_filter.mp (h.mem_of_not_losesEnd hpaths hu hall)).2

def wired : List Section := level ++ [
  ⟨"connection", [("from", quote "Player/Body/Arm"), ("to", quote ".")], []⟩,
  ⟨"connection", [("from", quote "./Door/Knob"), ("to", quote "Player")], []⟩,
  ⟨"editable", [("path", quote "Player")], []⟩]

def wiredScene : Scene :=
  match ofSections wired with
  | .ok s => s
  | .error _ => {}

theorem pruneConnections_of_read_wired : Section.readAll (sectionsText wired) = .ok wired ∧
    Scene.read (sectionsText wired) = .ok wiredScene ∧ (∀ u ∈ nodeSections wired, u.Plain) ∧
    DeclaredEarly (nodeSections wired) ∧
    ∃ rest trailing, { wiredScene with forest := wiredScene.forest.removeEach [2] }.nodes = .ok rest ∧
      { wiredScene with forest := wiredScene.forest.removeEach [2] }.pruneConnections =
        .ok { wiredScene with forest := wiredScene.forest.removeEach [2], trailing := trailing } ∧
      wiredScene.Prunes (wiredScene.forest.removeEach [2]) rest trailing := by
  have ht : Section.readAll (sectionsText wired) = .ok wired :=
    Section.readAll_sectionsText (by decide +kernel)
  have hs : Scene.read (sectionsText wired) = .ok wiredScene := by
    rw [Scene.read, ht]
    rfl
  have hplain : ∀ u ∈ nodeSections wired, u.Plain := by decide +kernel
  have hearly : DeclaredEarly (nodeSections wired) := by decide +kernel
  exact ⟨ht, hs, hplain, hearly, pruneConnections_of_read ht hs hplain hearly [2]⟩

example : (pruneConnections { wiredScene with forest := wiredScene.forest.removeEach [2] }).toOption.map
    (fun s => s.trailing) = some [wired[5], wired[7]] := by
  decide +kernel

end Coursework.Scene
