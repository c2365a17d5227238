import Coursework.Proofs.Scene.Linking
import Coursework.Proofs.Scene.Mapping
import Coursework.Proofs.Scene.Placing

namespace Coursework.Scene

variable {group : Option Text} {g : Text} {n : Node} {r : NodeId}

def Node.without (group : Option Text) (n : Node) : Node :=
  { n with groups := group.elim n.groups n.groups.erase }

theorem Node.still_without (group : Option Text) : Still (Node.without group) where
  nothing := by cases group <;> rfl
  name _ := rfl
  inner _ := rfl
  parent _ := rfl
  children _ := rfl
  keys _ := rfl

theorem Node.Printable.without (h : n.Printable) (group : Option Text) :
    (n.without group).Printable := by
  refine ⟨h.name, h.type, fun g hg => ?_, h.inner, h.ownKeys, h.attributeKeys, h.attributes,
    h.propertyKeys, h.properties⟩
  cases group with
  | none => exact h.groups g hg
  | some k => exact h.groups g (List.mem_of_mem_erase hg)

theorem Node.mem_groups_without : g ∈ (n.without (some g)).groups ↔ 2 ≤ n.groups.count g := by
  have hcount : (n.without (some g)).groups.count g = n.groups.count g - 1 :=
    List.count_erase_self
  rw [← List.count_pos_iff, hcount]
  omega

theorem filter_erase_self (g : Text) (gs : List Text) :
    (gs.erase g).filter (· ≠ g) = gs.filter (· ≠ g) := by
  induction gs with
  | nil => rfl
  | cons k gs ih =>
    by_cases hk : k = g
    · simp [hk]
    · have hbeq : (k == g) = false := beq_false_of_ne hk
      rw [List.erase_cons, hbeq]
      simp only [Bool.false_eq_true, if_false, List.filter_cons, ih]

namespace Forest

variable {f : Forest}

theorem node_takeGroup {ids : List NodeId} (hn : ids.Nodup) (f : Forest) (k : Text)
    {x : Nat} (hx : x < f.size) :
    (f.takeGroup k ids).node x = if x ∈ ids then (f.node x).without (some k) else f.node x := by
  induction ids generalizing f with
  | nil => rfl
  | cons id ids ih =>
    obtain ⟨hid, hn⟩ := List.nodup_cons.mp hn
    have hsize : x < (f.removeGroup k id).size := by
      rw [(SamePlaces.removeGroup f k id).size]
      exact hx
    have htake : f.takeGroup k (id :: ids) = (f.removeGroup k id).takeGroup k ids := rfl
    rw [htake, ih hn _ hsize, removeGroup, node_modify_cases]
    by_cases he : id = x
    · subst he
      rw [if_neg hid, if_pos ⟨rfl, hx⟩, if_pos List.mem_cons_self]
      rfl
    · simp [he, Ne.symm he]

theorem stripGroup_eq (hn : (f.walk r).Nodup) (hall : ∀ x < f.size, x ∈ f.walk r) (k : Text) :
    f.stripGroup k r = f.mapNodes (Node.without (some k)) := by
  have hsize : (f.stripGroup k r).size = f.size := (SamePlaces.takeGroup f k _).size
  apply Forest.ext_node
  · rw [hsize, size_mapNodes]
  · intro x hx
    rw [hsize] at hx
    rw [stripGroup, node_takeGroup hn f k hx, if_pos (hall x hx),
      node_mapNodes (Node.still_without _)]

end Forest

def Section.groups (u : Section) : List Text :=
  readStrings ((Keyed.get? u.attributes "groups".toList).getD ['[', ']'])

theorem Node.groups_of_isRead {u : Section} (h : n.IsRead u) : n.groups = u.groups := by
  obtain ⟨name, -, he⟩ := Option.map_eq_some_iff.mp h
  exact (congrArg Node.groups he).symm

/-- What a scene loses with a group: of each node one entry, and of the group all if no header
lists it twice. `f` is the tree without it. -/
structure Loses (s : Scene) (g : Text) (sections : List Section) (f : Forest)
    (ids : List NodeId) : Prop where
  nodes : s.nodes = .ok ids
  still : { s with forest := f }.nodes = .ok ids
  mem : ∀ i, i ∈ ids ↔ i < (nodeSections sections).length
  size : f.size = s.forest.size
  node : ∀ x, f.node x =
    { s.forest.node x with groups := (s.forest.node x).groups.erase g }
  others : ∀ x, (f.node x).groups.filter (· ≠ g) = (s.forest.node x).groups.filter (· ≠ g)
  inGroup : ∀ i u, (nodeSections sections)[i]? = some u →
    (f.inGroup g i = true ↔ 2 ≤ u.groups.count g)
  gone : (∀ x ∈ ids, f.inGroup g x = false) ↔
    ∀ u ∈ nodeSections sections, u.groups.count g ≤ 1

theorem stripGroup_of_read {t : Text} {s : Scene} (hs : Scene.read t = .ok s) (g : Text) :
    ∃ sections r ids, Section.readAll t = .ok sections ∧ s.root = some r ∧
      s.Loses g sections (s.forest.stripGroup g r) ids := by
  obtain ⟨sections, p, ht, h, hroot, hpos, rfl⟩ := Progress.follows_of_read hs
  obtain ⟨hsub, hperm⟩ := h.walk_perm hpos
  have hmem : ∀ x, x ∈ p.scene.forest.walk 0 ↔ x < (nodeSections sections).length := fun x => by
    rw [hperm.mem_iff, List.mem_range, h.size]
  have hstill := Node.still_without (some g)
  -- the walk meets every node once, so each loses one entry
  have hstrip : p.scene.forest.stripGroup g 0 = p.scene.forest.mapNodes (Node.without (some g)) :=
    Forest.stripGroup_eq (hperm.nodup_iff.mpr List.nodup_range)
      (fun x hx => (hmem x).mpr (h.size ▸ hx)) g
  have hnode := Forest.node_mapNodes hstill p.scene.forest
  have hgroup : ∀ i u, (nodeSections sections)[i]? = some u →
      ((p.scene.forest.mapNodes (Node.without (some g))).inGroup g i = true ↔
        2 ≤ u.groups.count g) := by
    intro i u hu
    rw [Forest.inGroup, List.contains_iff_mem, hnode, Node.mem_groups_without,
      Node.groups_of_isRead (h.nodes i u hu)]
  refine ⟨sections, 0, p.scene.forest.walk 0, ht, hroot, ?_⟩
  simp only [hstrip]
  constructor
  · simp only [Scene.nodes, hroot, hsub]
  · have htree := (h.nested.isTree hpos).mapNodes hstill
    simp only [Scene.nodes, hroot, htree.subtree_eq, Forest.walk_mapNodes hstill]
  · exact hmem
  · exact Forest.size_mapNodes _ _
  · exact hnode
  · intro x
    rw [hnode]
    exact filter_erase_self g _
  · exact hgroup
  · constructor
    · intro hnone u hu
      obtain ⟨i, hi, rfl⟩ := List.getElem_of_mem hu
      have hout := hnone i ((hmem i).mpr hi)
      by_contra hlt
      rw [(hgroup i _ (List.getElem?_eq_getElem hi)).mpr (by omega)] at hout
      cases hout
    · intro hone x hx
      have hi := (hmem x).mp hx
      have hle := hone _ (List.getElem_mem hi)
      rw [Bool.eq_false_iff, Ne, hgroup x _ (List.getElem?_eq_getElem hi)]
      omega

def marked : List Section := [
  ⟨"gd_scene", [("format", "3")], []⟩,
  ⟨"node", [("name", quote "A"), ("type", quote "Node"), ("groups", "[\"a\", \"a\"]")], []⟩]

def markedScene : Scene :=
  match ofSections marked with
  | .ok s => s
  | .error _ => {}

theorem read_marked : Scene.read (sectionsText marked) = .ok markedScene := by
  rw [Scene.read, Section.readAll_sectionsText (by decide +kernel)]
  rfl

theorem stripGroup_of_read_marked : Scene.read (sectionsText marked) = .ok markedScene ∧
    ∃ sections r ids, Section.readAll (sectionsText marked) = .ok sections ∧
      markedScene.root = some r ∧
      markedScene.Loses "a" sections (markedScene.forest.stripGroup "a" r) ids :=
  ⟨read_marked, stripGroup_of_read read_marked "a"⟩

theorem group_left : Scene.read (sectionsText marked) = .ok markedScene ∧
    markedScene.root = some 0 ∧ markedScene.nodes = .ok [0] ∧
    (markedScene.forest.stripGroup "a" 0).inGroup "a" 0 = true :=
  ⟨read_marked, by decide +kernel, rfl, by decide +kernel⟩

end Coursework.Scene
