import Coursework.Proofs.Scene.Nested

/-!
The written form of a scene is read back as the same scene.
-/

namespace Coursework.Scene

open Text

namespace Forest

variable {f : Forest} {r : NodeId}

structure Resolves (f : Forest) (r : NodeId) : Prop where
  rootInner : (f.node r).inner = []
  name : ∀ x, f.Reaches r x → Path.IsPart (f.node x).name
  innerNames : ∀ x, f.Reaches r x → Parts (f.node x).innerNames
  last : ∀ pre p x post, f.walk r = pre ++ x :: post → f.parentOf x = some p →
    ∃ m m', pre = m ++ p :: m' ∧ ∀ z ∈ m', f.segments z ≠ f.segments p
  nearest : ∀ pre p x post, f.walk r = pre ++ x :: post → f.parentOf x = some p →
    ∀ y ∈ pre, ∀ j, 0 < j → j ≤ (f.node x).innerNames.length →
      f.segments y ≠ f.segments p ++ (f.node x).innerNames.take j
  instanced : ∀ x p, f.Reaches r x → f.parentOf x = some p → (f.node x).inner ≠ [] →
    f.instanced p = true

def pathsOf (f : Forest) (ids : List NodeId) : Paths :=
  Keyed.ofList (ids.map fun x => (f.path x, ids.idxOf x))

theorem pathsOf_concat {pre : List NodeId} {x : NodeId} (hx : x ∉ pre) :
    f.pathsOf (pre ++ [x]) = Keyed.set (f.pathsOf pre) (f.path x) pre.length := by
  have hm : pre.map (fun y => (f.path y, (pre ++ [x]).idxOf y)) =
      pre.map fun y => (f.path y, pre.idxOf y) :=
    List.map_congr_left fun y hy => by rw [List.idxOf_append_of_mem hy]
  have hlast : (pre ++ [x]).idxOf x = pre.length := by
    rw [List.idxOf_append_of_notMem hx]
    simp
  rw [pathsOf, List.map_append, hm, List.map_singleton, hlast, Keyed.ofList_concat]
  rfl

theorem mem_keys_pathsOf {ids : List NodeId} {p : Text} :
    p ∈ Keyed.keys (f.pathsOf ids) ↔ ∃ x ∈ ids, f.path x = p := by
  rw [pathsOf, Keyed.mem_keys_ofList]
  simp [Keyed.keys]

structure Named (f : Forest) (r : NodeId) : Prop where
  name : ∀ x, f.Reaches r x → Path.IsPart (f.node x).name
  innerNames : ∀ x, f.Reaches r x → Parts (f.node x).innerNames

theorem Named.parts_segments (hn : f.Named r) (h : f.IsTree r) {x : NodeId}
    (hx : f.Reaches r x) : Parts (f.segments x) := by
  induction hx with
  | refl =>
    rw [segments_of_none h.root]
    exact parts_nil
  | @tail p c hp hc ih =>
    have hcx := hp.tail hc
    rw [h.segments_eq hcx (h.parent p c hp hc), Node.steps_eq]
    exact ih.append ((hn.innerNames c hcx).append (parts_singleton (hn.name c hcx)))

theorem parts_segments (h : f.IsTree r) (hr : f.Resolves r) {x : NodeId} (hx : f.Reaches r x) :
    Parts (f.segments x) :=
  Named.parts_segments ⟨hr.name, hr.innerNames⟩ h hx

theorem nearest_pathsOf (h : f.IsTree r) (hr : f.Resolves r) {pre post : List NodeId}
    {x p : NodeId} (hw : f.walk r = pre ++ x :: post) (hp : f.parentOf x = some p) :
    Nearest (f.pathsOf pre) (f.segments p ++ (f.node x).innerNames) (pre.idxOf p)
      (f.segments p) (f.node x).innerNames where
  names := rfl
  node := by
    have hxr : f.Reaches r x := h.mem_walk.mp (by simp [hw])
    have hpr := (h.reaches_parent hxr hp).1
    obtain ⟨m, m', rfl, hm'⟩ := hr.last pre p x post hw hp
    rw [pathsOf, List.map_append, List.map_cons]
    refine Keyed.get?_ofList_of_last _ fun hm => ?_
    simp only [Keyed.keys, List.map_map, List.mem_map, Function.comp_apply] at hm
    obtain ⟨z, hz, hzp⟩ := hm
    have hzr : f.Reaches r z := h.mem_walk.mp (by simp [hw, hz])
    exact hm' z hz (pathText_inj (parts_segments h hr hzr) (parts_segments h hr hpr) hzp)
  longest j hj hl := by
    have hxr : f.Reaches r x := h.mem_walk.mp (by simp [hw])
    have hpr := (h.reaches_parent hxr hp).1
    have hparts : Parts (f.segments p ++ (f.node x).innerNames.take j) :=
      (parts_segments h hr hpr).append fun w hw =>
        hr.innerNames x hxr w (List.mem_of_mem_take hw)
    rw [pathsOf, Keyed.get?_ofList_eq_none_iff]
    intro hm
    simp only [Keyed.keys, List.map_map, List.mem_map, Function.comp_apply] at hm
    obtain ⟨y, hy, hyp⟩ := hm
    have hyr : f.Reaches r y := h.mem_walk.mp (by simp [hw, hy])
    exact hr.nearest pre p x post hw hp y hy j hj hl
      (pathText_inj (parts_segments h hr hyr) hparts hyp)

end Forest

/-! ### One section after the other -/

variable {f : Forest} {r : NodeId}

def progressOf (preamble : List Section) (f : Forest) (ids : List NodeId) : Progress where
  scene := { preamble := preamble, forest := f.copy ids, root := if ids = [] then none else some 0 }
  paths := f.pathsOf ids

theorem Progress.step_root (preamble : List Section) (h : f.parentOf r = none)
    (hi : (f.node r).inner = []) (ho : (f.node r).OwnKeys) :
    (progressOf preamble f []).step (f.sectionOf r) = .ok (progressOf preamble f [r]) := by
  have hpath : f.parentPath r = none := by simp [Forest.parentPath, h]
  have hdot : f.path r = ['.'] := by
    rw [Forest.path, Forest.segments_of_none h]
    rfl
  rw [Forest.sectionOf_eq _ _ ho, hpath, Progress.step, if_neg (by simp),
    Node.nodeOf?_front_extras ho]
  simp only [Node.get?_parent_front _ ho, Option.map_none, progressOf, if_true]
  rw [Forest.copy_singleton h hi]
  simp [place, Forest.pathsOf, Keyed.ofList, Keyed.update, Keyed.set, hdot, Forest.copy, Forest.size]

theorem Progress.step_below (preamble : List Section) (h : f.IsTree r) (hr : f.Resolves r)
    {pre post : List NodeId} {x p : NodeId} (hw : f.walk r = pre ++ x :: post)
    (hp : f.parentOf x = some p) (ho : (f.node x).OwnKeys) :
    (progressOf preamble f pre).step (f.sectionOf x) = .ok (progressOf preamble f (pre ++ [x])) := by
  have hnd := h.nodup_walk .refl
  have hxr : f.Reaches r x := h.mem_walk.mp (by simp [hw])
  have hpr := (h.reaches_parent hxr hp).1
  have hx : x ∉ pre := by
    rw [hw] at hnd
    exact fun hm => (List.nodup_append.mp hnd).2.2 x hm x (by simp) rfl
  have hw' : f.walk r = (pre ++ [x]) ++ post := by simp [hw]
  have hnear := Forest.nearest_pathsOf h hr hw hp
  have hpm := h.parent_mem_before hw hp
  have hne : pre ≠ [] := List.ne_nil_of_mem hpm
  have hparts := (Forest.parts_segments h hr hpr).append (hr.innerNames x hxr)
  have hfor : parentFor (f.copy pre) (f.pathsOf pre)
      (Forest.pathText (f.segments p ++ (f.node x).innerNames)) =
      some (pre.idxOf p, (f.node x).inner) := by
    refine (parentFor_eq_some_iff hparts).mpr
      ⟨_, _, hnear, (Node.join_innerNames _).symm, fun hin => ?_⟩
    rw [(h.segments_copy hw hpm).2]
    exact hr.instanced x p hxr hp fun hi => hin (Node.innerNames_eq_nil.mpr hi)
  have hcopy := Forest.copy_concat (hnd.sublist (hw ▸ List.sublist_append_left _ _))
    (h.upClosed_before hw) hx hp hpm
  have hpath : (f.copy (pre ++ [x])).path pre.length = f.path x := by
    have hs := (h.segments_copy hw' (x := x) (by simp)).1
    rw [List.idxOf_append_of_notMem hx] at hs
    simp only [List.idxOf_cons_self, Nat.add_zero] at hs
    rw [Forest.path, hs, Forest.path]
  rw [Forest.sectionOf_eq _ _ ho, Forest.parentPath_eq hp (Forest.parts_segments h hr hpr)
    (hr.innerNames x hxr), step, if_neg (by simp), Node.nodeOf?_front_extras ho]
  simp only [Node.get?_parent_front _ ho, Option.map_some, progressOf, if_neg hne, unquote_quote,
    hfor]
  rw [Forest.pathsOf_concat hx, ← hpath, hcopy]
  simp [place, Forest.hang]

theorem Progress.step_walk (preamble : List Section) (h : f.IsTree r) (hr : f.Resolves r)
    (ho : ∀ x, f.Reaches r x → (f.node x).OwnKeys) {pre post : List NodeId} {x : NodeId}
    (hw : f.walk r = pre ++ x :: post) :
    (progressOf preamble f pre).step (f.sectionOf x) = .ok (progressOf preamble f (pre ++ [x])) := by
  have hxr : f.Reaches r x := h.mem_walk.mp (by simp [hw])
  cases hp : f.parentOf x with
  | some p => exact step_below preamble h hr hw hp (ho x hxr)
  | none =>
    obtain rfl : x = r := by
      by_contra hne
      obtain ⟨p, hp', -⟩ := h.listed hxr hne
      simp [hp] at hp'
    have hpre : pre = [] := by
      have hnd := h.nodup_walk .refl
      rw [h.walk_eq .refl] at hw hnd
      cases pre with
      | nil => rfl
      | cons y pre =>
        obtain ⟨rfl, ht⟩ := List.cons.inj hw
        exact absurd (by simp [ht]) (List.nodup_cons.mp hnd).1
    rw [hpre]
    exact step_root preamble h.root hr.rootInner (ho x hxr)

theorem foldlM_walk (preamble : List Section) (h : f.IsTree r) (hr : f.Resolves r)
    (ho : ∀ x, f.Reaches r x → (f.node x).OwnKeys) {pre post : List NodeId}
    (hw : f.walk r = pre ++ post) :
    (post.map f.sectionOf).foldlM Progress.step (progressOf preamble f pre) =
      .ok (progressOf preamble f (f.walk r)) := by
  induction post generalizing pre with
  | nil =>
    rw [hw, List.append_nil]
    rfl
  | cons x post ih =>
    rw [List.map_cons, List.foldlM_cons, Progress.step_walk preamble h hr ho hw]
    exact ih (by simp [hw])

theorem foldlM_preamble {p : Progress} (hp : p.paths = []) {ts : List Section}
    (h : ∀ t ∈ ts, t.tag ≠ "node".toList) :
    ts.foldlM Progress.step p =
      .ok { p with scene := { p.scene with preamble := p.scene.preamble ++ ts } } := by
  induction ts generalizing p with
  | nil => simp [pure, Except.pure]
  | cons t ts ih =>
    have hs : p.step t =
        .ok { p with scene := { p.scene with preamble := p.scene.preamble ++ [t] } } := by
      rw [Progress.step, if_pos (h t (by simp)), if_pos hp]
    rw [List.foldlM_cons, hs]
    refine (ih ?_ fun u hu => h u (List.mem_cons_of_mem _ hu)).trans ?_
    · exact hp
    · simp

theorem foldlM_trailing {p : Progress} (hp : p.paths ≠ []) {ts : List Section}
    (h : ∀ t ∈ ts, t.tag ≠ "node".toList) :
    ts.foldlM Progress.step p =
      .ok { p with scene := { p.scene with trailing := p.scene.trailing ++ ts } } := by
  induction ts generalizing p with
  | nil => simp [pure, Except.pure]
  | cons t ts ih =>
    have hs : p.step t =
        .ok { p with scene := { p.scene with trailing := p.scene.trailing ++ [t] } } := by
      rw [Progress.step, if_pos (h t (by simp)), if_neg hp]
    rw [List.foldlM_cons, hs]
    refine (ih ?_ fun u hu => h u (List.mem_cons_of_mem _ hu)).trans ?_
    · exact hp
    · simp

/-! ### Scenes -/

structure Printable (s : Scene) (r : NodeId) : Prop where
  root : s.root = some r
  tree : s.forest.IsTree r
  resolves : s.forest.Resolves r
  nodes : ∀ x, s.forest.Reaches r x → (s.forest.node x).Printable
  others : ∀ t ∈ s.preamble ++ s.trailing, t.tag ≠ "node".toList ∧ t.WellFormed

def reread (s : Scene) (r : NodeId) : Scene where
  preamble := s.preamble
  forest := s.forest.copy (s.forest.walk r)
  root := some 0
  trailing := s.trailing
  declared := Keyed.keys (s.forest.pathsOf (s.forest.walk r))

namespace Printable

variable {s : Scene} {r : NodeId}

theorem text_eq (h : s.Printable r) :
    s.text = .ok (sectionsText (s.sectionsOf (s.forest.walk r))) := by
  have hn : s.nodes = .ok (s.forest.walk r) := by
    rw [Scene.nodes, h.root]
    simp only [h.tree.subtree_eq]
  rw [text, hn]
  rfl

theorem unbroken_parentPath (h : s.Printable r) {x : NodeId} (hx : s.forest.Reaches r x) {p : Text}
    (hp : s.forest.parentPath x = some p) : Unbroken p := by
  have hsteps : ∀ y, s.forest.Reaches r y → ∀ w ∈ (s.forest.node y).innerNames, Unbroken w := by
    intro y hy w hw
    unfold Node.innerNames at hw
    split at hw
    · cases hw
    · exact fun c hc => (h.nodes y hy).inner c (mem_of_mem_splitOn hw hc)
  have hseg : ∀ y, s.forest.Reaches r y → ∀ w ∈ s.forest.segments y, Unbroken w := by
    intro y hy
    induction hy with
    | refl => simp [Forest.segments_of_none h.tree.root]
    | @tail q c hq hc ih =>
      have hcr := hq.tail hc
      rw [h.tree.segments_eq hcr (h.tree.parent q c hq hc), Node.steps_eq]
      intro w hw
      rcases List.mem_append.mp hw with hw | hw
      · exact ih w hw
      · rcases List.mem_append.mp hw with hw | hw
        · exact hsteps c hcr w hw
        · obtain rfl := List.mem_singleton.mp hw
          exact (h.nodes c hcr).name
  cases hq : s.forest.parentOf x with
  | none => simp [Forest.parentPath, hq] at hp
  | some q =>
    have hqr := (h.tree.reaches_parent hx hq).1
    rw [Forest.parentPath_eq hq (Forest.parts_segments h.tree h.resolves hqr)
      (h.resolves.innerNames x hx)] at hp
    obtain rfl := Option.some.inj hp
    apply Forest.unbroken_pathText
    intro w hw
    exact (List.mem_append.mp hw).elim (hseg q hqr w) (hsteps x hx w)

theorem wellFormed (h : s.Printable r) : ∀ t ∈ s.sectionsOf (s.forest.walk r), t.WellFormed := by
  intro t ht
  simp only [sectionsOf, List.mem_append, List.mem_map] at ht
  rcases ht with (ht | ⟨x, hx, rfl⟩) | ht
  · exact (h.others t (List.mem_append_left _ ht)).2
  · have hxr := h.tree.mem_walk.mp hx
    exact Node.Printable.wellFormed (h.nodes x hxr) fun p => h.unbroken_parentPath hxr
  · exact (h.others t (List.mem_append_right _ ht)).2

theorem ofSections_eq (h : s.Printable r) :
    ofSections (s.sectionsOf (s.forest.walk r)) = .ok (s.reread r) := by
  have ho : ∀ x, s.forest.Reaches r x → (s.forest.node x).OwnKeys := fun x hx => (h.nodes x hx).ownKeys
  have hne : s.forest.walk r ≠ [] := List.ne_nil_of_mem (h.tree.mem_walk.mpr .refl)
  have hpaths : s.forest.pathsOf (s.forest.walk r) ≠ [] := by
    intro hn
    have hk : s.forest.path r ∈ Keyed.keys (s.forest.pathsOf (s.forest.walk r)) :=
      Forest.mem_keys_pathsOf.mpr ⟨r, h.tree.mem_walk.mpr .refl, rfl⟩
    rw [hn] at hk
    cases hk
  have h1 : s.preamble.foldlM Progress.step {} = .ok (progressOf s.preamble s.forest []) :=
    foldlM_preamble rfl fun t ht => (h.others t (List.mem_append_left _ ht)).1
  have h2 := foldlM_walk s.preamble h.tree h.resolves ho (List.nil_append _).symm
  have h3 : s.trailing.foldlM Progress.step (progressOf s.preamble s.forest (s.forest.walk r)) =
      .ok ⟨{ s.reread r with declared := [] }, s.forest.pathsOf (s.forest.walk r)⟩ := by
    rw [foldlM_trailing hpaths fun t ht => (h.others t (List.mem_append_right _ ht)).1]
    simp [progressOf, reread, hne]
  have hall : (s.sectionsOf (s.forest.walk r)).foldlM Progress.step {} =
      .ok ⟨{ s.reread r with declared := [] }, s.forest.pathsOf (s.forest.walk r)⟩ := by
    rw [sectionsOf, List.foldlM_append, List.foldlM_append, h1]
    exact (congrArg (· >>= s.trailing.foldlM Progress.step) h2).trans h3
  rw [ofSections, hall]
  rfl

theorem read_text (h : s.Printable r) :
    Scene.read (sectionsText (s.sectionsOf (s.forest.walk r))) = .ok (s.reread r) := by
  rw [Scene.read, Section.readAll_sectionsText h.wellFormed]
  exact h.ofSections_eq

theorem text_reread (h : s.Printable r) : (s.reread r).text = s.text := by
  have hw := h.tree.walk_copy .refl
  rw [h.tree.idxOf_root] at hw
  have hn : (s.reread r).nodes = .ok ((s.forest.walk r).map (s.forest.walk r).idxOf) := by
    have hs := h.tree.copy.subtree_eq
    rw [Scene.nodes]
    simp only [reread, hs, hw]
  rw [h.text_eq, text, hn]
  have hm : ((s.forest.walk r).map (s.forest.walk r).idxOf).map (s.reread r).forest.sectionOf =
      (s.forest.walk r).map s.forest.sectionOf := by
    rw [List.map_map]
    apply List.map_congr_left
    intro x hx
    have hxr := h.tree.mem_walk.mp hx
    exact h.tree.sectionOf_copy hxr (h.nodes x hxr).ownKeys
  change Except.ok (sectionsText (s.preamble ++ _ ++ s.trailing)) = _
  rw [hm]
  rfl

theorem mem_declared_reread (h : s.Printable r) {p : Text} :
    p ∈ (s.reread r).declared ↔ ∃ x, s.forest.Reaches r x ∧ s.forest.path x = p := by
  rw [reread, Forest.mem_keys_pathsOf]
  simp only [h.tree.mem_walk]

end Printable

/-! ### The same tree -/

structure Node.Agrees (R : Fields Text → Fields Text → Prop) (n m : Node) : Prop where
  name : m.name = n.name
  type : m.type = n.type
  groups : m.groups = n.groups
  properties : m.properties = n.properties
  inner : m.inner = n.inner
  attributes : R m.attributes n.attributes

/-- The nodes below one root are the nodes below another under other numbers: parents and the order
of the children are kept, and what the nodes say agrees. -/
structure Forest.Renumbers (φ : NodeId → NodeId) (R : Fields Text → Fields Text → Prop)
    (f : Forest) (r : NodeId) (g : Forest) (r' : NodeId) : Prop where
  root : φ r = r'
  injective : ∀ x y, f.Reaches r x → f.Reaches r y → φ x = φ y → x = y
  agrees : ∀ x, f.Reaches r x → (f.node x).Agrees R (g.node (φ x))
  children : ∀ x, f.Reaches r x → g.childrenOf (φ x) = (f.childrenOf x).map φ
  parent : ∀ x, f.Reaches r x → g.parentOf (φ x) = (f.parentOf x).map φ

def Forest.SameTree (R : Fields Text → Fields Text → Prop) (f : Forest) (r : NodeId) (g : Forest)
    (r' : NodeId) : Prop := ∃ φ, f.Renumbers φ R r g r'

theorem Forest.IsTree.sameTree_copy (h : f.IsTree r) {R : Fields Text → Fields Text → Prop}
    (hR : ∀ x, f.Reaches r x → R (f.node x).reread.attributes (f.node x).attributes) :
    f.SameTree R r (f.copy (f.walk r)) 0 := by
  refine ⟨(f.walk r).idxOf, h.idxOf_root, fun x y hx _ hxy => ?_, fun x hx => ?_,
    fun x hx => h.childrenOf_copy hx, fun x hx => Forest.parentOf_copy (h.mem_walk.mpr hx)⟩
  · exact (List.idxOf_inj (h.mem_walk.mpr hx)).mp hxy
  · rw [Forest.node_copy (h.mem_walk.mpr hx)]
    exact ⟨rfl, rfl, rfl, rfl, rfl, hR x hx⟩

/-! ### Trees that edits leave behind -/

/-- A tree without undeclared names in which everything can be written. Siblings may have the same
name. -/
structure Writable (s : Scene) (r : NodeId) : Prop where
  root : s.root = some r
  tree : s.forest.IsTree r
  flat : ∀ x, s.forest.Reaches r x → (s.forest.node x).inner = []
  name : ∀ x, s.forest.Reaches r x → Path.IsPart (s.forest.node x).name
  nodes : ∀ x, s.forest.Reaches r x → (s.forest.node x).Printable
  others : ∀ t ∈ s.preamble ++ s.trailing, t.tag ≠ "node".toList ∧ t.WellFormed

theorem Forest.IsTree.segments_below (h : f.IsTree r) {p z : NodeId} (hp : f.Reaches r p)
    (hz : f.Reaches p z) (hne : z ≠ p) : (f.segments p).length < (f.segments z).length := by
  have hle : ∀ z, f.Reaches p z → (f.segments p).length ≤ (f.segments z).length := by
    intro z hz
    induction hz with
    | refl => exact Nat.le_refl _
    | @tail y z hy hz ih =>
      have hzr := (hp.trans hy).tail hz
      rw [h.segments_eq hzr (h.parent y z (hp.trans hy) hz), List.length_append]
      omega
  cases hz with
  | refl => exact absurd rfl hne
  | @tail y _ hy hz =>
    have hzr := (hp.trans hy).tail hz
    have := hle y hy
    rw [h.segments_eq hzr (h.parent y z (hp.trans hy) hz), List.length_append, Node.steps_eq]
    simp only [List.length_append, List.length_singleton]
    omega

theorem Writable.printable {s : Scene} {r : NodeId} (h : s.Writable r) : s.Printable r where
  root := h.root
  tree := h.tree
  nodes := h.nodes
  others := h.others
  resolves :=
    { rootInner := h.flat r .refl
      name := h.name
      innerNames := fun x hx => by
        rw [Node.innerNames_eq_nil.mpr (h.flat x hx)]
        exact parts_nil
      last := fun pre p x post hw hp => by
        have hxr : s.forest.Reaches r x := h.tree.mem_walk.mp (by simp [hw])
        have hne : x ≠ r := by
          rintro rfl
          simp [h.tree.root] at hp
        obtain ⟨q, m, m', hq, hpre, hm⟩ := h.tree.walk_split .refl hw hne
        obtain rfl : q = p := by simpa [hp] using hq.symm
        refine ⟨m, m', hpre, fun z hz he => ?_⟩
        have := h.tree.segments_below (h.tree.reaches_parent hxr hp).1 (hm z hz).1 (hm z hz).2
        rw [he] at this
        omega
      nearest := fun pre p x post hw _ y _ j hj hl => by
        have hxr : s.forest.Reaches r x := h.tree.mem_walk.mp (by simp [hw])
        rw [Node.innerNames_eq_nil.mpr (h.flat x hxr)] at hl
        simp only [List.length_nil] at hl
        omega
      instanced := fun x p hx _ hi => absurd (h.flat x hx) hi }

/-- A scene that edits leave behind is read back from its written form. -/
theorem Writable.reads_back {s : Scene} {r : NodeId} (h : s.Writable r) :
    ∃ t s', s.text = .ok t ∧ Scene.read t = .ok s' ∧ s'.preamble = s.preamble ∧
      s'.trailing = s.trailing ∧
      (∀ p, p ∈ s'.declared ↔ ∃ x, s.forest.Reaches r x ∧ s.forest.path x = p) ∧
      s'.root = some 0 ∧ s.forest.SameTree List.Perm r s'.forest 0 ∧ s'.text = .ok t := by
  have hp := h.printable
  refine ⟨_, s.reread r, hp.text_eq, hp.read_text, rfl, rfl, fun p => hp.mem_declared_reread, rfl,
    ?_, hp.text_reread.trans hp.text_eq⟩
  exact h.tree.sameTree_copy fun x hx =>
    Node.reread_attributes_perm (h.nodes x hx).ownKeys (h.nodes x hx).attributeKeys

def twins : Scene where
  preamble := [⟨"gd_scene", [("load_steps", "2"), ("format", "3")], []⟩]
  forest := ⟨[
    { name := "Stage [1]", type := "Node2D", children := [1, 2] },
    { name := "a \"b\" \\", type := "Label", groups := ["g 1", "\""], children := [3], parent := some 0
      attributes := [("instance", "ExtResource(\"1 2\")")]
      properties := [("text", "\"one\ntwo\""), ("x/y", "Vector2(1, 2)")] },
    { name := "a \"b\" \\", type := "Label", parent := some 0 },
    { name := "..", parent := some 1 }]⟩
  root := some 0
  trailing := [⟨"connection", [("signal", "\"pressed\""), ("to", "\".\"")], []⟩]

theorem twins_writable : twins.Writable 0 := by
  have hn : twins.forest.Nested := by decide +kernel
  have hs : 0 < twins.forest.size := by decide
  have hall : ∀ x < twins.forest.size, (twins.forest.node x).inner = [] ∧
      Path.IsPart (twins.forest.node x).name ∧ (twins.forest.node x).Printable := by decide +kernel
  have hr := fun x hx => hall x ((hn.reaches_iff hs).mp hx)
  exact ⟨rfl, hn.isTree hs, fun x hx => (hr x hx).1, fun x hx => (hr x hx).2.1,
    fun x hx => (hr x hx).2.2, by decide +kernel⟩

theorem twins_reads_back : twins.Writable 0 ∧ ∃ t s', twins.text = .ok t ∧
    Scene.read t = .ok s' ∧ s'.preamble = twins.preamble ∧ s'.trailing = twins.trailing ∧
    (∀ p, p ∈ s'.declared ↔ ∃ x, twins.forest.Reaches 0 x ∧ twins.forest.path x = p) ∧
    s'.root = some 0 ∧ twins.forest.SameTree List.Perm 0 s'.forest 0 ∧ s'.text = .ok t :=
  ⟨twins_writable, Writable.reads_back twins_writable⟩

end Coursework.Scene
