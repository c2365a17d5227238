import Coursework.Proofs.Scene.NodeHeader
import Coursework.Proofs.Scene.Tree

namespace Coursework.Scene.Forest

def Grown (f : Forest) : Prop := ∀ x p : Nat, f.parentOf x = some p → p < x

theorem Grown.exists_height {f : Forest} (h : f.Grown) (x : Nat) : ∃ n ≤ x, f.Height n x := by
  induction x using Nat.strongRecOn with
  | ind x ih =>
    cases hp : f.parentOf x with
    | none => exact ⟨0, by omega, hp⟩
    | some p =>
      have hlt := h x p hp
      obtain ⟨n, hn, hh⟩ := ih p hlt
      exact ⟨n + 1, by omega, p, hp, hh⟩

structure Carries (φ : NodeId → NodeId) (S : NodeId → Prop) (f g : Forest) : Prop where
  up : ∀ x p, S x → f.parentOf x = some p → S p
  parent : ∀ x, S x → g.parentOf (φ x) = (f.parentOf x).map φ
  steps : ∀ x, S x → (g.node (φ x)).steps = (f.node x).steps
  isInstance : ∀ x, S x → (g.node (φ x)).isInstance = (f.node x).isInstance

namespace Carries

variable {φ : NodeId → NodeId} {S : NodeId → Prop} {f g : Forest}

theorem height (h : Carries φ S f g) {x : NodeId} (hx : S x) {n : Nat} (hn : f.Height n x) :
    g.Height n (φ x) := by
  induction n generalizing x with
  | zero =>
    have hp : f.parentOf x = none := hn
    have hg := h.parent x hx
    rwa [hp] at hg
  | succ n ih =>
    obtain ⟨p, hp, hn⟩ := hn
    have hg := h.parent x hx
    rw [hp] at hg
    exact ⟨φ p, hg, ih (h.up x p hx hp) hn⟩

theorem segmentsWithin (h : Carries φ S f g) {x : NodeId} (hx : S x) (d : Nat) :
    g.segmentsWithin d (φ x) = f.segmentsWithin d x := by
  induction d generalizing x with
  | zero => rfl
  | succ d ih =>
    rw [Forest.segmentsWithin, Forest.segmentsWithin, h.parent x hx]
    cases hp : f.parentOf x with
    | none => rfl
    | some p =>
      simp only [Option.map_some]
      rw [ih (h.up x p hx hp), h.steps x hx]

theorem instancedWithin (h : Carries φ S f g) {x : NodeId} (hx : S x) (d : Nat) :
    g.instancedWithin d (φ x) = f.instancedWithin d x := by
  induction d generalizing x with
  | zero => rfl
  | succ d ih =>
    rw [Forest.instancedWithin, Forest.instancedWithin, h.parent x hx, h.isInstance x hx]
    cases hp : f.parentOf x with
    | none => rfl
    | some p =>
      simp only [Option.map_some]
      rw [ih (h.up x p hx hp)]

theorem segments (h : Carries φ S f g) {x : NodeId} (hx : S x) {n : Nat} (hn : f.Height n x)
    (hf : n < f.size) (hg : n < g.size) : g.segments (φ x) = f.segments x := by
  rw [Forest.segments, Forest.segments, ← h.segmentsWithin hx f.size]
  exact segmentsWithin_of_height (h.height hx hn) hg hf

theorem instanced (h : Carries φ S f g) {x : NodeId} (hx : S x) {n : Nat} (hn : f.Height n x)
    (hf : n < f.size) (hg : n < g.size) : g.instanced (φ x) = f.instanced x := by
  rw [Forest.instanced, Forest.instanced, ← h.instancedWithin hx f.size]
  exact instancedWithin_of_height (h.height hx hn) hg hf

end Carries

variable {f : Forest} {r : NodeId}

def copyNode (f : Forest) (ids : List NodeId) (x : NodeId) : Node :=
  { (f.node x).reread with
    inner := (f.node x).inner
    parent := (f.parentOf x).map ids.idxOf
    children := (ids.filter fun y => f.parentOf y = some x).map ids.idxOf }

def copy (f : Forest) (ids : List NodeId) : Forest := ⟨ids.map (f.copyNode ids)⟩

@[simp] theorem size_copy (f : Forest) (ids : List NodeId) : (f.copy ids).size = ids.length := by
  simp [copy, size]

theorem node_copy {ids : List NodeId} {x : NodeId} (hx : x ∈ ids) :
    (f.copy ids).node (ids.idxOf x) = f.copyNode ids x := by
  simp [copy, node, List.getElem?_idxOf hx]

theorem parentOf_copy {ids : List NodeId} {x : NodeId} (hx : x ∈ ids) :
    (f.copy ids).parentOf (ids.idxOf x) = (f.parentOf x).map ids.idxOf := by
  rw [parentOf, node_copy hx]
  rfl

theorem steps_copyNode (f : Forest) (ids : List NodeId) (x : NodeId) :
    (f.copyNode ids x).steps = (f.node x).steps := rfl

theorem isInstance_copyNode (f : Forest) (ids : List NodeId) (x : NodeId) :
    (f.copyNode ids x).isInstance = (f.node x).isInstance := by
  have hi : Keyed.get? (f.node x).reread.attributes "instance".toList =
      Keyed.get? (f.node x).attributes "instance".toList := by
    rw [Node.reread, Node.get?_filter_ne, if_neg (by decide), Node.get?_extras, Node.said?,
      if_neg (by decide)]
  unfold Node.isInstance Keyed.has
  exact congrArg (fun v : Option Text => v.isSome || (f.node x).inner != []) hi

def UpClosed (f : Forest) (ids : List NodeId) : Prop :=
  ∀ x ∈ ids, ∀ p, f.parentOf x = some p → p ∈ ids

theorem UpClosed.carries {ids : List NodeId} (h : f.UpClosed ids) :
    Carries ids.idxOf (· ∈ ids) f (f.copy ids) where
  up x p hx hp := h x hx p hp
  parent x hx := parentOf_copy hx
  steps x hx := by rw [node_copy hx, steps_copyNode]
  isInstance x hx := by rw [node_copy hx, isInstance_copyNode]

theorem ext_node {f g : Forest} (hs : f.size = g.size)
    (h : ∀ i < f.size, f.node i = g.node i) : f = g := by
  obtain ⟨fs⟩ := f
  obtain ⟨gs⟩ := g
  have hl : fs.length = gs.length := hs
  congr 1
  apply List.ext_getElem hl
  intro i hi hj
  simpa [node, hi, hj] using h i hi

theorem size_add (f : Forest) (n : Node) : (f.add n).size = f.size + 1 := by simp [add, size]

theorem node_add_of_lt (n : Node) {i : NodeId} (h : i < f.size) : (f.add n).node i = f.node i := by
  have h' : i < f.nodes.length := h
  simp [add, node, List.getElem?_append_left h']

theorem node_add_size (f : Forest) (n : Node) : (f.add n).node f.size = n := by
  simp [add, node, size]

def hang (f : Forest) (n : Node) (p : NodeId) : Forest := (f.add n).addChild p f.size

@[simp] theorem size_hang (f : Forest) (n : Node) (p : NodeId) : (f.hang n p).size = f.size + 1 := by
  rw [hang, addChild, size_modify, size_modify, size_add]

theorem node_hang_size (n : Node) {p : NodeId} (h : p < f.size) :
    (f.hang n p).node f.size = { n with parent := some p } := by
  have hs : f.size < (f.add n).size := by rw [size_add]; exact Nat.lt_succ_self _
  have hne : p ≠ f.size := Nat.ne_of_lt h
  rw [hang, addChild, node_modify _ _ _ _ (by rw [size_modify]; exact hs), node_modify _ _ _ _ hs,
    if_neg hne, if_pos rfl, node_add_size]

theorem node_hang_of_lt (n : Node) (p : NodeId) {i : NodeId} (h : i < f.size) :
    (f.hang n p).node i =
      if p = i then { f.node i with children := f.childrenOf i ++ [f.size] } else f.node i := by
  have hs : i < (f.add n).size := by rw [size_add]; exact Nat.lt_succ_of_lt h
  have hne : f.size ≠ i := Nat.ne_of_gt h
  rw [hang, addChild, node_modify _ _ _ _ (by rw [size_modify]; exact hs), node_modify _ _ _ _ hs,
    if_neg hne, node_add_of_lt n h]
  rfl

section Concat

variable {pre : List NodeId} {x p y : NodeId}

theorem idxOf_concat (hx : x ∉ pre) : (pre ++ [x]).idxOf x = pre.length := by
  rw [List.idxOf_append_of_notMem hx]
  simp

theorem copyNode_concat_last (hu : f.UpClosed pre) (hx : x ∉ pre) (hp : f.parentOf x = some p)
    (hpm : p ∈ pre) : f.copyNode (pre ++ [x]) x = { (f.node x).reread with
      inner := (f.node x).inner, parent := some (pre.idxOf p), children := [] } := by
  have hbelow : pre.filter (fun y => f.parentOf y = some x) = [] := by
    rw [List.filter_eq_nil_iff]
    intro y hy hyx
    exact hx (hu y hy x (by simpa using hyx))
  have hpx : p ≠ x := fun h => hx (h ▸ hpm)
  have hidx : (pre ++ [x]).idxOf p = pre.idxOf p := List.idxOf_append_of_mem hpm
  rw [copyNode, List.filter_append, hbelow]
  simp [hp, hidx, hpx]

theorem copyNode_concat_of_mem (hu : f.UpClosed pre) (hx : x ∉ pre) (hp : f.parentOf x = some p)
    (hpm : p ∈ pre) (hy : y ∈ pre) : f.copyNode (pre ++ [x]) y =
      if pre.idxOf p = pre.idxOf y then
        { f.copyNode pre y with children := (f.copyNode pre y).children ++ [pre.length] }
      else f.copyNode pre y := by
  have hidx : ∀ z ∈ pre, (pre ++ [x]).idxOf z = pre.idxOf z := fun z hz =>
    List.idxOf_append_of_mem hz
  have hup : (f.parentOf y).map (pre ++ [x]).idxOf = (f.parentOf y).map pre.idxOf := by
    cases hq : f.parentOf y with
    | none => rfl
    | some q => simp [hidx q (hu y hy q hq)]
  have hdown : (pre.filter fun z => f.parentOf z = some y).map (pre ++ [x]).idxOf =
      (pre.filter fun z => f.parentOf z = some y).map pre.idxOf :=
    List.map_congr_left fun z hz => hidx z (List.mem_filter.mp hz).1
  rw [copyNode, List.filter_append, List.map_append, hdown, hup]
  by_cases hpy : p = y
  · subst hpy
    simp [copyNode, hp, idxOf_concat hx]
  · have hpi : pre.idxOf p ≠ pre.idxOf y := fun h => hpy ((List.idxOf_inj hpm).mp h)
    rw [if_neg hpi]
    simp [copyNode, hp, hpy]

theorem copy_concat (hn : pre.Nodup) (hu : f.UpClosed pre) (hx : x ∉ pre)
    (hp : f.parentOf x = some p) (hpm : p ∈ pre) :
    f.copy (pre ++ [x]) =
      (f.copy pre).hang { (f.node x).reread with inner := (f.node x).inner } (pre.idxOf p) := by
  have hip : pre.idxOf p < (f.copy pre).size := by
    rw [size_copy]
    exact List.idxOf_lt_length_of_mem hpm
  apply ext_node (by simp)
  intro i hi
  rw [size_copy, List.length_append, List.length_singleton] at hi
  by_cases hil : i = pre.length
  · have hs := node_hang_size { (f.node x).reread with inner := (f.node x).inner } hip
    have hc : (f.copy (pre ++ [x])).node ((pre ++ [x]).idxOf x) = f.copyNode (pre ++ [x]) x :=
      node_copy (by simp)
    rw [size_copy] at hs
    rw [idxOf_concat hx] at hc
    rw [hil, hs, hc, copyNode_concat_last hu hx hp hpm]
    rfl
  · obtain ⟨y, hy, rfl⟩ : ∃ y ∈ pre, i = pre.idxOf y := by
      have hlt : i < pre.length := by omega
      exact ⟨pre[i], List.getElem_mem hlt, (hn.idxOf_getElem i hlt).symm⟩
    have hlt : pre.idxOf y < (f.copy pre).size := by
      rw [size_copy]
      exact List.idxOf_lt_length_of_mem hy
    have hc : (f.copy (pre ++ [x])).node ((pre ++ [x]).idxOf y) = f.copyNode (pre ++ [x]) y :=
      node_copy (by simp [hy])
    rw [List.idxOf_append_of_mem hy] at hc
    rw [hc, node_hang_of_lt _ _ hlt, childrenOf, node_copy hy, size_copy,
      copyNode_concat_of_mem hu hx hp hpm hy]

end Concat

theorem copy_singleton (h : f.parentOf r = none) (hi : (f.node r).inner = []) :
    f.copy [r] = ({} : Forest).add (f.node r).reread := by
  simp [copy, copyNode, add, h, hi, Node.reread]

namespace IsTree

theorem parent_mem_before (h : f.IsTree r) {pre post : List NodeId} {x p : NodeId}
    (hw : f.walk r = pre ++ x :: post) (hp : f.parentOf x = some p) : p ∈ pre := by
  have hne : x ≠ r := by
    rintro rfl
    simp [h.root] at hp
  obtain ⟨q, m, m', hq, rfl, -⟩ := h.walk_split .refl hw hne
  obtain rfl : q = p := by simpa [hp] using hq.symm
  simp

theorem upClosed_before (h : f.IsTree r) {pre post : List NodeId} (hw : f.walk r = pre ++ post) :
    f.UpClosed pre := by
  intro x hx p hp
  obtain ⟨as, bs, rfl⟩ := List.append_of_mem hx
  rw [List.append_assoc, List.cons_append] at hw
  exact List.mem_append_left _ (h.parent_mem_before hw hp)

theorem upClosed (h : f.IsTree r) : f.UpClosed (f.walk r) :=
  h.upClosed_before (List.append_nil _).symm

theorem mem_walk (h : f.IsTree r) {x : NodeId} : x ∈ f.walk r ↔ f.Reaches r x :=
  h.mem_walk_iff .refl

theorem childrenOf_copy (h : f.IsTree r) {x : NodeId} (hx : f.Reaches r x) :
    (f.copy (f.walk r)).childrenOf ((f.walk r).idxOf x) =
      (f.childrenOf x).map (f.walk r).idxOf := by
  rw [childrenOf, node_copy (h.mem_walk.mpr hx), copyNode, h.children_eq_filter hx]

theorem idxOf_root (h : f.IsTree r) : (f.walk r).idxOf r = 0 := by
  rw [h.walk_eq .refl]
  simp

theorem reaches_copy (h : f.IsTree r) {i : NodeId}
    (hi : (f.copy (f.walk r)).Reaches 0 i) : ∃ x, f.Reaches r x ∧ i = (f.walk r).idxOf x := by
  induction hi with
  | refl => exact ⟨r, .refl, h.idxOf_root.symm⟩
  | tail _ hc ih =>
    obtain ⟨x, hx, rfl⟩ := ih
    rw [Lists, h.childrenOf_copy hx] at hc
    obtain ⟨c, hcx, rfl⟩ := List.mem_map.mp hc
    exact ⟨c, hx.tail hcx, rfl⟩

theorem copy_reaches (h : f.IsTree r) {x : NodeId} (hx : f.Reaches r x) :
    (f.copy (f.walk r)).Reaches 0 ((f.walk r).idxOf x) := by
  induction hx with
  | refl => rw [h.idxOf_root]
  | tail hp hc ih =>
    apply ih.tail
    rw [Lists, h.childrenOf_copy hp]
    exact List.mem_map_of_mem hc

theorem copy (h : f.IsTree r) : (f.copy (f.walk r)).IsTree 0 where
  inStore := by
    rw [size_copy]
    exact List.length_pos_of_mem (h.mem_walk.mpr .refl)
  root := by
    have hr := parentOf_copy (f := f) (h.mem_walk.mpr .refl)
    rwa [h.idxOf_root, h.root] at hr
  once i hi := by
    obtain ⟨x, hx, rfl⟩ := h.reaches_copy hi
    rw [h.childrenOf_copy hx]
    apply (h.once x hx).map_on
    intro a ha b hb hab
    exact (List.idxOf_inj (h.mem_walk.mpr (hx.tail ha))).mp hab
  parent i c hi hc := by
    obtain ⟨x, hx, rfl⟩ := h.reaches_copy hi
    rw [h.childrenOf_copy hx] at hc
    obtain ⟨c, hcx, rfl⟩ := List.mem_map.mp hc
    rw [parentOf_copy (h.mem_walk.mpr (hx.tail hcx)), h.parent x c hx hcx]
    rfl

theorem walk_copy (h : f.IsTree r) {x : NodeId} (hx : f.Reaches r x) :
    (f.copy (f.walk r)).walk ((f.walk r).idxOf x) = (f.walk x).map (f.walk r).idxOf := by
  refine h.induction (P := fun x => (f.copy (f.walk r)).walk ((f.walk r).idxOf x) =
    (f.walk x).map (f.walk r).idxOf) ?_ x hx
  intro x hx ih
  rw [h.copy.walk_eq (h.copy_reaches hx), h.walk_eq hx, h.childrenOf_copy hx, List.map_cons,
    List.flatMap_map, List.map_flatMap]
  congr 1
  exact List.flatMap_congr ih

theorem height_le_idxOf (h : f.IsTree r) {x : NodeId} (hx : f.Reaches r x) {n : Nat}
    (hn : f.Height n x) {pre post : List NodeId} (hw : f.walk r = pre ++ x :: post) :
    n ≤ pre.length := by
  induction hx generalizing n pre post with
  | refl =>
    have := hn.unique (m := 0) h.root
    omega
  | @tail p c hp hc ih =>
    obtain ⟨k, hk⟩ := h.exists_height hp
    have hck := h.height_child hp hc hk
    have hne : c ≠ r := by
      rintro rfl
      have := hck.unique (m := 0) h.root
      omega
    obtain ⟨q, m, m', hq, rfl, -⟩ := h.walk_split .refl hw hne
    obtain rfl : q = p := by simpa [h.parent p c hp hc] using hq.symm
    rw [List.append_assoc, List.cons_append] at hw
    have hle := ih hk hw
    have := hn.unique hck
    simp only [List.length_append, List.length_cons]
    omega

theorem segments_copy (h : f.IsTree r) {pre post : List NodeId} (hw : f.walk r = pre ++ post)
    {x : NodeId} (hx : x ∈ pre) :
    (f.copy pre).segments (pre.idxOf x) = f.segments x ∧
      (f.copy pre).instanced (pre.idxOf x) = f.instanced x := by
  have hxr : f.Reaches r x := h.mem_walk.mp (by simp [hw, hx])
  obtain ⟨n, hn⟩ := h.exists_height hxr
  obtain ⟨as, bs, hab⟩ := List.append_of_mem hx
  have hw' : f.walk r = as ++ x :: (bs ++ post) := by simp [hw, hab]
  have hlen := h.height_le_idxOf hxr hn hw'
  have hs : n < (f.copy pre).size := by
    rw [size_copy, hab]
    simp only [List.length_append, List.length_cons]
    omega
  have hc := (h.upClosed_before hw).carries
  exact ⟨hc.segments hx hn (h.height_lt hxr hn) hs, hc.instanced hx hn (h.height_lt hxr hn) hs⟩

theorem sectionOf_copy (h : f.IsTree r) {x : NodeId} (hx : f.Reaches r x)
    (ho : (f.node x).OwnKeys) :
    (f.copy (f.walk r)).sectionOf ((f.walk r).idxOf x) = f.sectionOf x := by
  have hm := h.mem_walk.mpr hx
  have hn := node_copy (f := f) hm
  have hpath : (f.copy (f.walk r)).parentPath ((f.walk r).idxOf x) = f.parentPath x := by
    rw [parentPath, parentPath, parentOf_copy hm, hn]
    cases hp : f.parentOf x with
    | none => rfl
    | some p =>
      have hpm := h.upClosed x hm p hp
      have hs := (h.segments_copy (List.append_nil _).symm hpm).1
      simp only [Option.map_some, Forest.path, hs]
      rfl
  have ho' : ((f.copy (f.walk r)).node ((f.walk r).idxOf x)).OwnKeys := by
    rw [hn]
    exact ho.reread
  rw [sectionOf_eq _ _ ho', sectionOf_eq _ _ ho, hpath, hn]
  have he : (f.copyNode (f.walk r) x).extras = (f.node x).extras := (f.node x).extras_reread
  rw [he]
  rfl

end IsTree

end Coursework.Scene.Forest
