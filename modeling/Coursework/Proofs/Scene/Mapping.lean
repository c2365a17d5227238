import Coursework.Proofs.Scene.Rereading
import Coursework.Proofs.Scene.Rewriting

namespace Coursework.Scene

open Text

structure Still (u : Node → Node) : Prop where
  nothing : u default = default
  name : ∀ n, (u n).name = n.name
  inner : ∀ n, (u n).inner = n.inner
  parent : ∀ n, (u n).parent = n.parent
  children : ∀ n, (u n).children = n.children
  keys : ∀ n, Keyed.keys (u n).attributes = Keyed.keys n.attributes

namespace Forest

def mapNodes (u : Node → Node) (f : Forest) : Forest := ⟨f.nodes.map u⟩

variable {f : Forest} {u v : Node → Node} {r x : NodeId}

@[simp] theorem size_mapNodes (u : Node → Node) (f : Forest) : (f.mapNodes u).size = f.size := by
  simp [size, mapNodes]

theorem mapNodes_comp (u v : Node → Node) (f : Forest) :
    (f.mapNodes u).mapNodes v = f.mapNodes (v ∘ u) := by
  simp [mapNodes]

theorem node_mapNodes (hu : Still u) (f : Forest) (x : NodeId) :
    (f.mapNodes u).node x = u (f.node x) := by
  rw [node, node, mapNodes, List.getElem?_map]
  cases f.nodes[x]? with
  | none => exact hu.nothing.symm
  | some n => rfl

theorem parentOf_mapNodes (hu : Still u) (f : Forest) (x : NodeId) :
    (f.mapNodes u).parentOf x = f.parentOf x := by
  rw [parentOf, node_mapNodes hu, hu.parent, parentOf]

theorem childrenOf_mapNodes (hu : Still u) (f : Forest) (x : NodeId) :
    (f.mapNodes u).childrenOf x = f.childrenOf x := by
  rw [childrenOf, node_mapNodes hu, hu.children, childrenOf]

theorem innerNames_mapNodes (hu : Still u) (f : Forest) (x : NodeId) :
    ((f.mapNodes u).node x).innerNames = (f.node x).innerNames := by
  rw [node_mapNodes hu, Node.innerNames, Node.innerNames, hu.inner]

theorem carries_mapNodes (hu : Still u) (f : Forest) :
    Carries id (fun _ => True) f (f.mapNodes u) where
  up _ _ _ _ := trivial
  parent x _ := by
    rw [id, parentOf_mapNodes hu, Option.map_id]
    rfl
  steps x _ := by rw [id, Node.steps_eq, Node.steps_eq, innerNames_mapNodes hu, node_mapNodes hu, hu.name]
  isInstance x _ := by
    have hhas : Keyed.has (u (f.node x)).attributes "instance".toList =
        Keyed.has (f.node x).attributes "instance".toList := by
      rw [Bool.eq_iff_iff, Keyed.has_iff, Keyed.has_iff, hu.keys]
    rw [id, node_mapNodes hu, Node.isInstance, hhas, hu.inner, Node.isInstance]

theorem segments_mapNodes (hu : Still u) (f : Forest) (x : NodeId) :
    (f.mapNodes u).segments x = f.segments x := by
  rw [segments, size_mapNodes]
  exact (carries_mapNodes hu f).segmentsWithin trivial f.size

theorem instanced_mapNodes (hu : Still u) (f : Forest) (x : NodeId) :
    (f.mapNodes u).instanced x = f.instanced x := by
  rw [instanced, size_mapNodes]
  exact (carries_mapNodes hu f).instancedWithin trivial f.size

theorem path_mapNodes (hu : Still u) (f : Forest) (x : NodeId) :
    (f.mapNodes u).path x = f.path x := by
  rw [path, segments_mapNodes hu, path]

theorem parentPath_mapNodes (hu : Still u) (f : Forest) (x : NodeId) :
    (f.mapNodes u).parentPath x = f.parentPath x := by
  rw [parentPath, parentOf_mapNodes hu, node_mapNodes hu, hu.inner, parentPath]
  simp only [path_mapNodes hu]

theorem visitWithin_mapNodes (hu : Still u) (f : Forest) (d : Nat) (x : NodeId) :
    (f.mapNodes u).visitWithin d x = f.visitWithin d x := by
  induction d generalizing x with
  | zero => rfl
  | succ d ih =>
    have hbelow : (f.mapNodes u).visitWithin d = f.visitWithin d := funext ih
    rw [visitWithin, visitWithin, hbelow, childrenOf_mapNodes hu]

theorem walk_mapNodes (hu : Still u) (f : Forest) (x : NodeId) :
    (f.mapNodes u).walk x = f.walk x := by
  rw [walk, visit, visitWithin_mapNodes hu, size_mapNodes, walk, visit]

theorem reaches_mapNodes (hu : Still u) : (f.mapNodes u).Reaches r x ↔ f.Reaches r x := by
  have hlists : (f.mapNodes u).Lists = f.Lists := by
    funext p c
    rw [Lists, childrenOf_mapNodes hu, Lists]
  rw [Reaches, hlists]

theorem IsTree.mapNodes (hu : Still u) (h : f.IsTree r) : (f.mapNodes u).IsTree r := by
  constructor
  · rw [size_mapNodes]
    exact h.inStore
  · rw [parentOf_mapNodes hu]
    exact h.root
  · intro x hx
    rw [childrenOf_mapNodes hu]
    exact h.once x ((reaches_mapNodes hu).mp hx)
  · intro x c hx hc
    rw [childrenOf_mapNodes hu] at hc
    rw [parentOf_mapNodes hu]
    exact h.parent x c ((reaches_mapNodes hu).mp hx) hc

theorem Resolves.mapNodes (hu : Still u) (h : f.Resolves r) : (f.mapNodes u).Resolves r := by
  constructor
  · rw [node_mapNodes hu, hu.inner]
    exact h.rootInner
  · intro x hx
    rw [node_mapNodes hu, hu.name]
    exact h.name x ((reaches_mapNodes hu).mp hx)
  · intro x hx
    rw [innerNames_mapNodes hu]
    exact h.innerNames x ((reaches_mapNodes hu).mp hx)
  · intro pre p x post hw hp
    rw [walk_mapNodes hu] at hw
    rw [parentOf_mapNodes hu] at hp
    simp only [segments_mapNodes hu]
    exact h.last pre p x post hw hp
  · intro pre p x post hw hp
    rw [walk_mapNodes hu] at hw
    rw [parentOf_mapNodes hu] at hp
    simp only [segments_mapNodes hu, innerNames_mapNodes hu]
    exact h.nearest pre p x post hw hp
  · intro x p hx hp hi
    rw [parentOf_mapNodes hu] at hp
    rw [node_mapNodes hu, hu.inner] at hi
    rw [instanced_mapNodes hu]
    exact h.instanced x p ((reaches_mapNodes hu).mp hx) hp hi

end Forest

def Node.map (f : Text → Text) (n : Node) : Node :=
  { n with
    type := f n.type
    attributes := Keyed.mapValues f n.attributes
    properties := Keyed.mapValues f n.properties
    groups := n.groups.map f }

namespace Node

variable {f : Text → Text} {n : Node}

theorem still_map (hf : Tame f) : Still (Node.map f) where
  nothing := by
    rw [Node.map, show (default : Node).type = [] from rfl, hf.nil]
    rfl
  name _ := rfl
  inner _ := rfl
  parent _ := rfl
  children _ := rfl
  keys n := Keyed.keys_mapValues f n.attributes

theorem keyOrder_map (f : Text → Text) (n : Node) : (n.map f).keyOrder = n.keyOrder := by
  have hhas : ∀ k, Keyed.has (Keyed.mapValues f n.attributes) k = Keyed.has n.attributes k := by
    intro k
    rw [Bool.eq_iff_iff, Keyed.has_iff, Keyed.has_iff, Keyed.keys_mapValues]
  simp only [keyOrder, Node.map, hhas, Keyed.keys_mapValues]

theorem said?_map (hf : Tame f) (n : Node) (k : Text) : (n.map f).said? k = (n.said? k).map f := by
  rw [said?, said?]
  split
  · by_cases hg : n.groups = []
    · simp [Node.map, hg]
    · simp [Node.map, hg, hf.writeStrings]
  · exact Keyed.get?_mapValues f n.attributes k

theorem extras_map (hf : Tame f) (n : Node) : (n.map f).extras = Keyed.mapValues f n.extras := by
  have hput : ∀ (ks : List Text) (fs : Fields Text), ks.foldl (n.map f).put (Keyed.mapValues f fs) =
      Keyed.mapValues f (ks.foldl n.put fs) := by
    intro ks
    induction ks with
    | nil => exact fun _ => rfl
    | cons k ks ih =>
      intro fs
      rw [List.foldl_cons, List.foldl_cons, ← ih, put, put, said?_map hf]
      cases n.said? k with
      | none => rfl
      | some v =>
        simp only [Option.map_some]
        rw [Keyed.set_mapValues]
  rw [extras, keyOrder_map]
  exact hput n.keyOrder []

theorem front_map (hf : Tame f) (hname : f n.name = n.name) {parent : Option Text}
    (hparent : ∀ p, parent = some p → f p = p) :
    (n.map f).front parent = Keyed.mapValues f (n.front parent) := by
  have htype : (n.map f).type = [] ↔ n.type = [] := hf.eq_nil n.type
  have hn : f (quote n.name) = quote n.name := by rw [hf.quote, hname]
  have hp : ∀ p, parent = some p → f (quote p) = quote p := fun p hp => by
    rw [hf.quote, hparent p hp]
  rw [front, front, Keyed.mapValues, List.map_cons, List.map_append, hn]
  congr 2
  · by_cases ht : n.type = []
    · rw [if_pos (htype.mpr ht), if_pos ht]
      rfl
    · rw [if_neg (fun h => ht (htype.mp h)), if_neg ht]
      simp [Node.map, hf.quote]
  · cases parent with
    | none => rfl
    | some p => simp [hp p rfl]

theorem Printable.map (hf : Tame f) (h : n.Printable) : (n.map f).Printable := by
  constructor
  · exact h.name
  · exact hf.unbroken h.type
  · intro g hg
    obtain ⟨g', hg', rfl⟩ := List.mem_map.mp hg
    exact hf.unbroken (h.groups g' hg')
  · exact h.inner
  · intro k hk
    rw [Node.map, Keyed.keys_mapValues] at hk
    exact h.ownKeys k hk
  · rw [Node.map, Keyed.keys_mapValues]
    exact h.attributeKeys
  · intro a ha
    obtain ⟨b, hb, rfl⟩ := List.mem_map.mp ha
    obtain ⟨hk, hu, hw⟩ := h.attributes b hb
    exact ⟨hk, hf.unbroken hu, hf.whole hw⟩
  · rw [Node.map, Keyed.keys_mapValues]
    exact h.propertyKeys
  · intro p hp
    obtain ⟨q, hq, rfl⟩ := List.mem_map.mp hp
    obtain ⟨hk, he⟩ := h.properties q hq
    exact ⟨hk, hf.entire he⟩

theorem InOrder.map (f : Text → Text) (h : n.InOrder) : (n.map f).InOrder := by
  constructor
  · exact h.nodup
  · rw [Node.map, Keyed.keys_mapValues]
    exact h.keys

end Node

def map (f : Text → Text) (s : Scene) : Scene :=
  { s with
    preamble := s.preamble.map (Section.map f)
    forest := s.forest.mapNodes (Node.map f)
    trailing := s.trailing.map (Section.map f) }

structure Fixed (f : Text → Text) (s : Scene) (r : NodeId) : Prop where
  words : ∀ w ∈ "node".toList :: "groups".toList :: nodeKeys, f w = w
  name : ∀ x, s.forest.Reaches r x → f (s.forest.node x).name = (s.forest.node x).name
  parent : ∀ x, s.forest.Reaches r x → ∀ p, s.forest.parentPath x = some p → f p = p
  attributes : ∀ x, s.forest.Reaches r x → ∀ k ∈ Keyed.keys (s.forest.node x).attributes, f k = k
  properties : ∀ x, s.forest.Reaches r x → ∀ k ∈ Keyed.keys (s.forest.node x).properties, f k = k
  others : ∀ t ∈ s.preamble ++ s.trailing, t.Fixed f

variable {f : Text → Text} {s : Scene} {r : NodeId}

theorem Printable.map (hf : Tame f) (h : s.Printable r) : (s.map f).Printable r := by
  have hu := Node.still_map hf
  constructor
  · exact h.root
  · exact h.tree.mapNodes hu
  · exact h.resolves.mapNodes hu
  · intro x hx
    rw [Scene.map, Forest.node_mapNodes hu]
    exact (h.nodes x ((Forest.reaches_mapNodes hu).mp hx)).map hf
  · intro t ht
    rw [Scene.map, ← List.map_append] at ht
    obtain ⟨t', ht', rfl⟩ := List.mem_map.mp ht
    obtain ⟨htag, hwf⟩ := h.others t' ht'
    exact ⟨htag, hwf.map hf⟩

theorem Printable.sectionOf_map (hf : Tame f) (h : s.Printable r) (hx : s.Fixed f r) {x : NodeId}
    (hr : s.forest.Reaches r x) :
    (s.map f).forest.sectionOf x = (s.forest.sectionOf x).map f := by
  have hu := Node.still_map hf
  have ho := (h.nodes x hr).ownKeys
  have hnode : (s.map f).forest.node x = (s.forest.node x).map f :=
    Forest.node_mapNodes hu s.forest x
  have hparent : (s.map f).forest.parentPath x = s.forest.parentPath x :=
    Forest.parentPath_mapNodes hu s.forest x
  have ho' : ((s.map f).forest.node x).OwnKeys := by
    rw [hnode]
    exact ((h.nodes x hr).map hf).ownKeys
  rw [Forest.sectionOf_eq _ _ ho', Forest.sectionOf_eq _ _ ho, hnode, hparent,
    Node.front_map hf (hx.name x hr) (hx.parent x hr), Node.extras_map hf, Section.map]
  simp [Keyed.mapValues, Node.map]

theorem Printable.fixed_sectionOf (h : s.Printable r) (hx : s.Fixed f r) {x : NodeId}
    (hr : s.forest.Reaches r x) : (s.forest.sectionOf x).Fixed f := by
  rw [Forest.sectionOf_eq _ _ (h.nodes x hr).ownKeys]
  constructor
  · exact hx.words _ List.mem_cons_self
  · intro k hk
    rw [Keyed.keys_append, List.mem_append] at hk
    rcases hk with hk | hk
    · apply hx.words
      exact List.mem_cons_of_mem _ (List.mem_cons_of_mem _ (Node.mem_nodeKeys_of_front hk))
    · have hkey : k ∈ (s.forest.node x).keyOrder := by
        by_contra hn
        rw [Node.mem_keys_extras, Node.said?_eq_none hn] at hk
        cases hk
      rcases Node.mem_keyOrder.mp hkey with hk | rfl
      · exact hx.attributes x hr k hk
      · exact hx.words _ (List.mem_cons_of_mem _ List.mem_cons_self)
  · exact hx.properties x hr

theorem Printable.text_map (hf : Tame f) (h : s.Printable r) (hx : s.Fixed f r) :
    f (sectionsText (s.sectionsOf (s.forest.walk r))) =
      sectionsText ((s.map f).sectionsOf ((s.map f).forest.walk r)) := by
  have hwalk : (s.map f).forest.walk r = s.forest.walk r :=
    Forest.walk_mapNodes (Node.still_map hf) s.forest r
  have hnodes : ((s.forest.walk r).map s.forest.sectionOf).map (Section.map f) =
      (s.forest.walk r).map (s.map f).forest.sectionOf := by
    rw [List.map_map]
    apply List.map_congr_left
    intro x hm
    exact (h.sectionOf_map hf hx (h.tree.mem_walk.mp hm)).symm
  rw [hf.sectionsText, hwalk]
  · rw [sectionsOf, List.map_append, List.map_append, hnodes]
    rfl
  · intro t ht
    simp only [sectionsOf, List.mem_append, List.mem_map] at ht
    rcases ht with (ht | ⟨x, hm, rfl⟩) | ht
    · exact hx.others t (List.mem_append_left _ ht)
    · exact h.fixed_sectionOf hx (h.tree.mem_walk.mp hm)
    · exact hx.others t (List.mem_append_right _ ht)

theorem Printable.read_map (hf : Tame f) (h : s.Printable r) (hx : s.Fixed f r) :
    Scene.read (f (sectionsText (s.sectionsOf (s.forest.walk r)))) = .ok ((s.map f).reread r) := by
  rw [h.text_map hf hx]
  exact (h.map hf).read_text

end Coursework.Scene
