import Coursework.Proofs.Scene.Linking
import Coursework.Proofs.Scene.Placing
import Coursework.Scene.Edit

namespace Coursework.Scene

namespace Forest

variable {f : Forest}

theorem Linked.lt_size_of_mem_walk (h : f.Linked) {x y : Nat} (hx : x < f.size)
    (hy : y ∈ f.walk x) : y < f.size := by
  obtain ⟨r, hr, hnone, hreach⟩ := h.exists_top hx
  have ht := h.isTree hr hnone
  exact ht.lt_size (hreach.trans ((ht.mem_walk_iff hreach).mp hy))

theorem Visit.found_of_firstOf {test : NodeId → Except Fault Bool} {ends : Bool}
    {ids : List NodeId} {id : NodeId} (h : Visit.firstOf test ends ids = .ok (some id)) :
    id ∈ ids ∧ test id = .ok true := by
  induction ids with
  | nil =>
    unfold Visit.firstOf at h
    split at h <;> cases h
  | cons i ids ih =>
    unfold Visit.firstOf at h
    split at h
    · cases h
    · next ht =>
      obtain rfl := Option.some.inj (Except.ok.inj h)
      exact ⟨List.mem_cons_self, ht⟩
    · exact ⟨List.mem_cons_of_mem _ (ih h).1, (ih h).2⟩

theorem mem_walk_of_get? {top id : NodeId} {path : Text} (h : f.get? top path = .ok (some id)) :
    id ∈ f.walk top := by
  unfold get? at h
  split at h
  · cases h
  · exact (Visit.found_of_firstOf h).1

theorem mem_children_of_child? {id c : NodeId} {index : Int}
    (h : f.child? id index = .ok (some c)) : c ∈ f.childrenOf id := by
  simp only [child?] at h
  split at h
  · exact List.mem_of_getElem? (Except.ok.inj h)
  · split at h
    · next hc =>
      obtain rfl := Option.some.inj (Except.ok.inj h)
      exact List.mem_reverse.mp (List.mem_of_getElem? hc)
    · cases h

theorem get?_parent_sectionOf (f : Forest) (id : NodeId) :
    Keyed.get? (f.sectionOf id).attributes "parent".toList =
      (Keyed.get? (f.node id).attributes "parent".toList).or ((f.parentPath id).map quote) := by
  have hfront : Keyed.get? ((f.node id).front (f.parentPath id)) "parent".toList =
      (f.parentPath id).map quote := by
    cases f.parentPath id <;> by_cases ht : (f.node id).type = [] <;>
      simp [Node.front, ht, Keyed.get?]
  have hsaid : (f.node id).said? "parent".toList =
      Keyed.get? (f.node id).attributes "parent".toList := if_neg (by decide)
  rw [f.sectionOf_eq_foldl, Node.get?_foldl_put, hfront, hsaid]
  split
  · rfl
  · next hk =>
    have hnone : Keyed.get? (f.node id).attributes "parent".toList = none :=
      hsaid.symm.trans (Node.said?_eq_none hk)
    rw [hnone, Option.none_or]

def pathWithin (base inner : Text) : Text :=
  if inner = [] then base else if base = ['.'] then inner else base ++ ['/'] ++ inner

theorem parentPath_of_parentOf {x p : NodeId} (h : f.parentOf x = some p) :
    f.parentPath x = some (pathWithin (f.path p) (f.node x).inner) := by
  rw [parentPath, h]
  rfl

end Forest

/-- What a step must not do: give a parent to a node that has one or that is the top of the tree
of the new parent, or make a node with a place. -/
def Edit.Fair (s : Session) : Edit → Prop
  | .act on _ (.addChild child) => ∀ p c, s.node? on = .ok p → s.node? child = .ok c →
    s.forest.parentOf c = none ∧ ¬ s.forest.Reaches c p
  | .create _ n => n.parent = none ∧ n.children = [] ∧ n.inner = []
  | _ => True

namespace Session

def after (s : Session) (es : List Edit) : Session := es.foldl (fun s e => (s.run e).1) s

def Fair (s : Session) : List Edit → Prop
  | [] => True
  | e :: es => e.Fair s ∧ Fair (s.run e).1 es

structure Linked (s : Session) : Prop where
  forest : s.forest.Linked
  names : ∀ name id, Keyed.get? s.names name = some (some id) → id < s.forest.size

namespace Linked

variable {s : Session}

theorem lt_size (h : s.Linked) {name : Text} {id : NodeId} (hn : s.node? name = .ok id) :
    id < s.forest.size := by
  unfold node? at hn
  split at hn
  · next hi =>
    obtain rfl := Except.ok.inj hn
    exact h.names _ _ hi
  · cases hn

theorem withForest (h : s.Linked) {f : Forest} (hf : f.Linked) (hs : f.size = s.forest.size) :
    Linked { s with forest := f } :=
  ⟨hf, fun name id hn => hs ▸ h.names name id hn⟩

theorem named (h : s.Linked) (name : Text) {r : Except Forest.Fault (Option NodeId)}
    (hr : ∀ id, r = .ok (some id) → id < s.forest.size) : (s.named name r).1.Linked := by
  cases r with
  | error e => exact h
  | ok found =>
    refine ⟨h.forest, fun key id hk => ?_⟩
    simp only [Session.named] at hk
    rw [Keyed.get?_set] at hk
    split at hk
    · exact hr id (congrArg Except.ok (Option.some.inj hk))
    · exact h.names key id hk

theorem samePlaces (h : s.Linked) {f : Forest} (hf : Forest.SamePlaces s.forest f) :
    Linked { s with forest := f } := h.withForest (hf.linked h.forest) hf.size

theorem ofForest (h : s.Linked) {r : Except Forest.Fault Forest}
    (hr : ∀ f, r = .ok f → f.Linked ∧ f.size = s.forest.size) : (s.ofForest r).1.Linked := by
  cases r with
  | error e => exact h
  | ok f =>
    obtain ⟨hf, hs⟩ := hr f rfl
    exact h.withForest hf hs

theorem addChild (h : s.Linked) {id : Nat} (hid : id < s.forest.size) {child : Text}
    (hf : ∀ c, s.node? child = .ok c → s.forest.parentOf c = none ∧ ¬ s.forest.Reaches c id)
    (result : Text) : (s.act id result (.addChild child)).1.Linked := by
  simp only [act]
  split
  · exact h
  · next c hc =>
    obtain ⟨hn, hr⟩ := hf c hc
    exact h.withForest (h.forest.addChild hid (h.lt_size hc) hn hr) (Forest.size_addChild _ _ _)

theorem act (h : s.Linked) {id : Nat} (hid : id < s.forest.size) (result : Text) {a : Action}
    (ha : ∀ child, a ≠ .addChild child) : (s.act id result a).1.Linked := by
  cases a with
  | addChild child => exact absurd rfl (ha child)
  | get path =>
    exact h.named result fun i hi =>
      h.forest.lt_size_of_mem_walk hid (Forest.mem_walk_of_get? hi)
  | find name =>
    exact h.named result fun i hi =>
      h.forest.lt_size_of_mem_walk hid (Forest.Visit.found_of_firstOf hi).1
  | child index =>
    apply h.named
    intro c hc
    exact Forest.lt_size_of_parentOf ((h.forest.listed id c).mp (Forest.mem_children_of_child? hc))
  | parent =>
    apply h.named
    intro p hp
    exact h.forest.parent_lt (Except.ok.inj hp)
  | walk | describe | describeAll | section_ | inGroup => exact h
  | removeChild child =>
    simp only [Session.act]
    split
    · exact h
    · exact h.ofForest fun f hf => ⟨h.forest.removeChild hf, Forest.size_removeChild hf⟩
  | remove => exact h.ofForest fun f hf => ⟨h.forest.remove hf, Forest.size_remove hf⟩
  | setProperty | deleteProperty | setAttribute | deleteAttribute | rename | setType =>
    exact h.samePlaces (.modify _ id (fun _ => rfl) (fun _ => rfl) fun _ => rfl)
  | addGroup group => exact h.samePlaces (.addGroup _ group id)
  | removeGroup group => exact h.samePlaces (.removeGroup _ group id)
  | stripGroup group =>
    simp only [Session.act]
    split
    · exact h.samePlaces (.takeGroup _ group _)
    · exact h.samePlaces (.takeGroup _ group _)
  | removeMembers group =>
    obtain ⟨hf, hs⟩ := h.forest.removeMembers group id
    simp only [Session.act]
    split
    · next he =>
      rw [he] at hf hs
      exact h.withForest hf hs
    · next he =>
      rw [he] at hf hs
      exact h.withForest hf hs

theorem create (h : s.Linked) {n : Node} (hp : n.parent = none) (hc : n.children = [])
    (hi : n.inner = []) (result : Text) : (s.run (.create result n)).1.Linked := by
  have hadd : Linked { s with forest := s.forest.add n } := by
    refine ⟨h.forest.add hp hc hi, fun name id hn => ?_⟩
    rw [Forest.size_add]
    exact Nat.lt_succ_of_lt (h.names name id hn)
  apply hadd.named
  intro id hid
  obtain rfl := Option.some.inj (Except.ok.inj hid)
  rw [Forest.size_add]
  exact Nat.lt_succ_self _

theorem run (h : s.Linked) {e : Edit} (he : e.Fair s) : (s.run e).1.Linked := by
  cases e with
  | create result n =>
    obtain ⟨hp, hc, hi⟩ := he
    exact h.create hp hc hi result
  | raise message => exact h
  | act on result a =>
    rw [Session.run]
    split
    · exact h
    · next id hid =>
      by_cases ha : ∃ child, a = .addChild child
      · obtain ⟨child, rfl⟩ := ha
        exact h.addChild (h.lt_size hid) (fun c hc => he id c hid hc) result
      · exact h.act (h.lt_size hid) result fun child hc => ha ⟨child, hc⟩

theorem after (h : s.Linked) {es : List Edit} (hes : s.Fair es) : (s.after es).Linked := by
  induction es generalizing s with
  | nil => exact h
  | cons e es ih =>
    obtain ⟨he, hes⟩ := hes
    exact ih (h.run he) hes

end Linked

theorem linked_start {t : Text} {scene : Scene} (h : Scene.read t = .ok scene) :
    (start scene).Linked := by
  obtain ⟨sections, p, -, hf, hroot, hpos, rfl⟩ := Progress.follows_of_read h
  refine ⟨hf.nested.linked hf.rootInner, fun name id hn => ?_⟩
  simp only [start, hroot, Keyed.get?] at hn
  split at hn
  · obtain rfl := Option.some.inj (Option.some.inj hn)
    exact hpos
  · cases hn

structure Treelike (s : Session) : Prop where
  once : ((List.range s.forest.size).flatMap s.forest.childrenOf).Nodup
  listed : ∀ p c, c ∈ s.forest.childrenOf p ↔ s.forest.parentOf c = some p
  acyclic : ∀ x, ¬ Relation.TransGen s.forest.Lists x x
  inner : ∀ x, s.forest.parentOf x = none → (s.forest.node x).inner = []
  walk : ∀ r < s.forest.size, s.forest.parentOf r = none → ∃ ids, s.forest.subtree r = .ok ids ∧
    ids.Nodup ∧ ∀ x, x ∈ ids ↔ s.forest.Reaches r x
  segments : ∀ p c, c ∈ s.forest.childrenOf p →
    s.forest.segments c = s.forest.segments p ++ (s.forest.node c).steps
  written : ∀ p c, c ∈ s.forest.childrenOf p →
    Keyed.get? (s.forest.sectionOf c).attributes "parent".toList =
      (Keyed.get? (s.forest.node c).attributes "parent".toList).or
        (some (quote (Forest.pathWithin (s.forest.path p) (s.forest.node c).inner)))
  unplaced : ∀ x, s.forest.parentOf x = none →
    Keyed.get? (s.forest.sectionOf x).attributes "parent".toList =
      Keyed.get? (s.forest.node x).attributes "parent".toList
  notAChild : ∀ on child result p c, s.node? on = .ok p → s.node? child = .ok c →
    c ∉ s.forest.childrenOf p →
    s.run (.act on result (.removeChild child)) = (s, .error (.tree .notAChild))
  noParent : ∀ on result c, s.node? on = .ok c → s.forest.parentOf c = none →
    s.run (.act on result .remove) = (s, .error (.tree (.rootRemoved (s.forest.node c).name)))
  moved : ∀ c p q, s.forest.parentOf c = some q → p < s.forest.size → ¬ s.forest.Reaches c p →
    ∃ f, s.forest.remove c = .ok f ∧ (f.addChild p c).path p = s.forest.path p ∧
      (f.addChild p c).path c =
        Forest.pathText (s.forest.segments p ++ [(s.forest.node c).name])

theorem Linked.treelike {s : Session} (h : s.Linked) : s.Treelike where
  once := h.forest.nodup_children
  listed := h.forest.listed
  acyclic := h.forest.not_reaches_self
  inner := h.forest.inner
  walk r hr hn := by
    have ht := h.forest.isTree hr hn
    exact ⟨_, ht.subtree_eq, ht.nodup_walk .refl, fun x => ht.mem_walk⟩
  segments p c hc := h.forest.segments_eq ((h.forest.listed p c).mp hc)
  written p c hc := by
    rw [Forest.get?_parent_sectionOf, Forest.parentPath_of_parentOf ((h.forest.listed p c).mp hc)]
    rfl
  unplaced x hx := by
    rw [Forest.get?_parent_sectionOf, Forest.parentPath, hx]
    exact Option.or_none
  notAChild on child result p c hp hc hn := by
    have hr : s.forest.removeChild p c = .error .notAChild := if_neg hn
    simp only [Session.run, Session.act, hp, hc, hr, Session.ofForest]
  noParent on result c hc hn := by
    simp only [Session.run, Session.act, hc, Forest.remove, hn, Session.ofForest]
  moved c p q hq hp hr := by
    obtain ⟨f, hf, -, hpp, hcc⟩ := h.forest.moved hq hp hr
    exact ⟨f, hf, congrArg Forest.pathText hpp, congrArg Forest.pathText hcc⟩

/-- Edits keep the nodes of a scene in trees, and a section names the path of the node that lists
its node, unless an attribute says otherwise. -/
theorem treelike_after {t : Text} {scene : Scene} (h : Scene.read t = .ok scene) {es : List Edit}
    (hes : (start scene).Fair es) : ((start scene).after es).Treelike :=
  ((linked_start h).after hes).treelike

end Session

def pair : List Section := [
  ⟨"gd_scene", [("format", "3")], []⟩,
  ⟨"node", [("name", quote "A"), ("type", quote "Node")], []⟩,
  ⟨"node", [("name", quote "B"), ("type", quote "Node"), ("parent", quote ".")], []⟩]

def pairScene : Scene :=
  match ofSections pair with
  | .ok s => s
  | .error _ => {}

namespace Session

theorem treelike_after_pair : Scene.read (sectionsText pair) = .ok pairScene ∧
    (start pairScene).Fair [.act "root" "b" (.get "B"), .create "n" { name := "N" },
      .act "b" "it" (.addChild "n"), .act "root" "it" .remove, .act "b" "it" (.rename "C")] ∧
    ((start pairScene).after [.act "root" "b" (.get "B"), .create "n" { name := "N" },
      .act "b" "it" (.addChild "n"), .act "root" "it" .remove,
      .act "b" "it" (.rename "C")]).Treelike := by
  have hr : Scene.read (sectionsText pair) = .ok pairScene := by
    rw [Scene.read, Section.readAll_sectionsText (by decide +kernel)]
    rfl
  have hf : (start pairScene).Fair [.act "root" "b" (.get "B"), .create "n" { name := "N" },
      .act "b" "it" (.addChild "n"), .act "root" "it" .remove, .act "b" "it" (.rename "C")] := by
    refine ⟨trivial, ⟨rfl, rfl, rfl⟩, ?_, trivial, trivial, trivial⟩
    intro p c hp hc
    obtain rfl : 1 = p := Except.ok.inj hp
    obtain rfl : 2 = c := Except.ok.inj hc
    refine ⟨rfl, fun hreach => ?_⟩
    rcases Relation.ReflTransGen.cases_head hreach with he | ⟨x, hx, -⟩
    · cases he
    · cases hx
  exact ⟨hr, hf, treelike_after hr hf⟩

theorem parent_overwritten : ∃ s, s = (start pairScene).after
      [.act "root" "b" (.get "B"), .act "b" "it" (.setAttribute "parent" (quote "X"))] ∧
    1 ∈ s.forest.childrenOf 0 ∧ (s.forest.node 1).inner = [] ∧ s.forest.path 0 = ['.'] ∧
    Keyed.get? (s.forest.sectionOf 1).attributes "parent".toList = some (quote "X") ∧
    quote "X" ≠ quote "." := by
  refine ⟨_, rfl, ?_⟩
  decide +kernel

end Session

end Coursework.Scene
