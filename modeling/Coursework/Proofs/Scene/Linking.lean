import Coursework.Proofs.Scene.Nested

namespace Coursework.Scene.Forest

variable {f g : Forest}

structure Linked (f : Forest) : Prop where
  listed : ∀ p c, c ∈ f.childrenOf p ↔ f.parentOf c = some p
  once : ∀ p, (f.childrenOf p).Nodup
  acyclic : ∀ x, ∃ n, f.Height n x
  inner : ∀ x, f.parentOf x = none → (f.node x).inner = []

theorem node_of_size_le {x : Nat} (h : f.size ≤ x) : f.node x = default := by
  have hx : f.nodes[x]? = none := List.getElem?_eq_none_iff.mpr h
  rw [node, hx]
  rfl

theorem parentOf_of_size_le {x : Nat} (h : f.size ≤ x) : f.parentOf x = none := by
  rw [parentOf, node_of_size_le h]
  rfl

theorem childrenOf_of_size_le {x : Nat} (h : f.size ≤ x) : f.childrenOf x = [] := by
  rw [childrenOf, node_of_size_le h]
  rfl

theorem node_modify_cases (f : Forest) (id : NodeId) (u : Node → Node) (x : Nat) :
    (f.modify id u).node x = if id = x ∧ x < f.size then u (f.node x) else f.node x := by
  by_cases hx : x < f.size
  · rw [node_modify f id x u hx]
    simp [hx]
  · rw [node_of_size_le (Nat.le_of_not_lt hx), node_of_size_le]
    · simp [hx]
    · rw [size_modify]
      exact Nat.le_of_not_lt hx

theorem Nested.linked (h : f.Nested) (hi : (f.node 0).inner = []) : f.Linked where
  listed p c := by
    by_cases hp : p < f.size
    · rw [h.children p hp, List.mem_filter, List.mem_range]
      constructor
      · rintro ⟨-, hc⟩
        simpa using hc
      · intro hc
        exact ⟨lt_size_of_parentOf hc, by simpa using hc⟩
    · rw [childrenOf_of_size_le (Nat.le_of_not_lt hp)]
      constructor
      · intro hc
        cases hc
      · intro hc
        exact absurd (h.parent_lt hc) hp
  once p := by
    by_cases hp : p < f.size
    · rw [h.children p hp]
      exact List.nodup_range.filter _
    · rw [childrenOf_of_size_le (Nat.le_of_not_lt hp)]
      exact .nil
  acyclic x := by
    by_cases hx : x < f.size
    · obtain ⟨n, -, hn⟩ := h.exists_height hx
      exact ⟨n, hn⟩
    · exact ⟨0, parentOf_of_size_le (Nat.le_of_not_lt hx)⟩
  inner x hx := by
    by_cases h0 : x = 0
    · exact h0 ▸ hi
    · by_cases hs : x < f.size
      · obtain ⟨p, hp⟩ := h.below x hs h0
        rw [hx] at hp
        cases hp
      · rw [node_of_size_le (Nat.le_of_not_lt hs)]
        rfl

namespace Linked

variable {p c x r : Nat}

theorem parent_lt (h : f.Linked) (hp : f.parentOf x = some p) : p < f.size := by
  by_contra hn
  have hx := (h.listed p x).mpr hp
  rw [childrenOf_of_size_le (Nat.le_of_not_lt hn)] at hx
  cases hx

theorem isTree (h : f.Linked) (hr : r < f.size) (hn : f.parentOf r = none) : f.IsTree r where
  inStore := hr
  root := hn
  once x _ := h.once x
  parent x c _ hc := (h.listed x c).mp hc

theorem exists_top (h : f.Linked) (hx : x < f.size) :
    ∃ r < f.size, f.parentOf r = none ∧ f.Reaches r x := by
  obtain ⟨n, hn⟩ := h.acyclic x
  induction n generalizing x with
  | zero => exact ⟨x, hx, hn, .refl⟩
  | succ n ih =>
    obtain ⟨p, hp, hn⟩ := hn
    obtain ⟨r, hr, hnone, hreach⟩ := ih (h.parent_lt hp) hn
    exact ⟨r, hr, hnone, hreach.tail ((h.listed p x).mpr hp)⟩

theorem exists_height (h : f.Linked) (hx : x < f.size) : ∃ n < f.size, f.Height n x := by
  obtain ⟨r, hr, hnone, hreach⟩ := h.exists_top hx
  have ht := h.isTree hr hnone
  obtain ⟨n, hn⟩ := ht.exists_height hreach
  exact ⟨n, ht.height_lt hreach hn, hn⟩

theorem segments_eq (h : f.Linked) (hp : f.parentOf x = some p) :
    f.segments x = f.segments p ++ (f.node x).steps := by
  obtain ⟨n, hn, hh⟩ := h.exists_height (lt_size_of_parentOf hp)
  exact segments_of_height hh hn hp

theorem not_reaches_self (h : f.Linked) (x : Nat) : ¬ Relation.TransGen f.Lists x x := by
  have hup : ∀ {a b n m : Nat}, Relation.TransGen f.Lists a b → f.Height n a → f.Height m b →
      n < m := by
    intro a b n m hab hn hm
    induction hab generalizing m with
    | single hl =>
      have := hm.unique (m := n + 1) ⟨a, (h.listed a _).mp hl, hn⟩
      omega
    | @tail b c _ hl ih =>
      obtain ⟨k, hk⟩ := h.acyclic b
      have := hm.unique (m := k + 1) ⟨b, (h.listed b c).mp hl, hk⟩
      have := ih hk
      omega
  intro hx
  obtain ⟨n, hn⟩ := h.acyclic x
  exact Nat.lt_irrefl n (hup hx hn hn)

theorem nodup_children (h : f.Linked) : ((List.range f.size).flatMap f.childrenOf).Nodup := by
  rw [List.nodup_flatMap]
  refine ⟨fun p _ => h.once p, ?_⟩
  refine List.Pairwise.imp ?_ (List.nodup_range (n := f.size))
  intro p q hne c hp hq
  rw [h.listed] at hp hq
  exact hne (Option.some.inj (hp.symm.trans hq))

end Linked

/-! ### Edits of nodes that leave the tree alone -/

structure SamePlaces (f g : Forest) : Prop where
  size : g.size = f.size
  parent : ∀ x, g.parentOf x = f.parentOf x
  children : ∀ x, g.childrenOf x = f.childrenOf x
  inner : ∀ x, (g.node x).inner = (f.node x).inner

theorem Height.congr {n : Nat} {x : NodeId} (hp : ∀ x, g.parentOf x = f.parentOf x)
    (h : f.Height n x) : g.Height n x := by
  induction n generalizing x with
  | zero => exact (hp x).trans h
  | succ n ih =>
    obtain ⟨q, hq, hn⟩ := h
    exact ⟨q, (hp x).trans hq, ih hn⟩

theorem Linked.congr (h : f.Linked) (hp : ∀ x, g.parentOf x = f.parentOf x)
    (hc : ∀ x, g.childrenOf x = f.childrenOf x) (hi : ∀ x, (g.node x).inner = (f.node x).inner) :
    g.Linked where
  listed p c := by
    rw [hc, hp]
    exact h.listed p c
  once p := by
    rw [hc]
    exact h.once p
  acyclic x := by
    obtain ⟨n, hn⟩ := h.acyclic x
    exact ⟨n, hn.congr hp⟩
  inner x hx := by
    rw [hp] at hx
    rw [hi]
    exact h.inner x hx

namespace SamePlaces

theorem refl (f : Forest) : SamePlaces f f := ⟨rfl, fun _ => rfl, fun _ => rfl, fun _ => rfl⟩

theorem trans {h : Forest} (hf : SamePlaces f g) (hg : SamePlaces g h) : SamePlaces f h where
  size := hg.size.trans hf.size
  parent x := (hg.parent x).trans (hf.parent x)
  children x := (hg.children x).trans (hf.children x)
  inner x := (hg.inner x).trans (hf.inner x)

theorem linked (hs : SamePlaces f g) (h : f.Linked) : g.Linked :=
  h.congr hs.parent hs.children hs.inner

theorem modify (f : Forest) (id : NodeId) {u : Node → Node} (hp : ∀ n, (u n).parent = n.parent)
    (hc : ∀ n, (u n).children = n.children) (hi : ∀ n, (u n).inner = n.inner) :
    SamePlaces f (f.modify id u) := by
  have hnode : ∀ x, (f.modify id u).node x = f.node x ∨ (f.modify id u).node x = u (f.node x) := by
    intro x
    rw [node_modify_cases]
    split
    · exact .inr rfl
    · exact .inl rfl
  refine ⟨size_modify f id u, fun x => ?_, fun x => ?_, fun x => ?_⟩
  · rcases hnode x with h | h <;> simp [parentOf, h, hp]
  · rcases hnode x with h | h <;> simp [childrenOf, h, hc]
  · rcases hnode x with h | h <;> simp [h, hi]

theorem addGroup (f : Forest) (group : Text) (id : NodeId) :
    SamePlaces f (f.addGroup group id) := by
  unfold Forest.addGroup
  split
  · exact refl f
  · exact modify f id (fun _ => rfl) (fun _ => rfl) fun _ => rfl

theorem removeGroup (f : Forest) (group : Text) (id : NodeId) :
    SamePlaces f (f.removeGroup group id) :=
  modify f id (fun _ => rfl) (fun _ => rfl) fun _ => rfl

theorem takeGroup (f : Forest) (group : Text) (ids : List NodeId) :
    SamePlaces f (f.takeGroup group ids) := by
  unfold Forest.takeGroup
  induction ids generalizing f with
  | nil => exact refl f
  | cons id ids ih => exact (removeGroup f group id).trans (ih _)

end SamePlaces

/-! ### New nodes -/

theorem Linked.add (h : f.Linked) {n : Node} (hp : n.parent = none) (hc : n.children = [])
    (hi : n.inner = []) : (f.add n).Linked := by
  have hnode : ∀ x, (f.add n).node x = f.node x ∨ f.size ≤ x ∧ (f.add n).node x = n := by
    intro x
    rcases Nat.lt_trichotomy x f.size with hx | rfl | hx
    · exact .inl (node_add_of_lt n hx)
    · exact .inr ⟨Nat.le_refl _, node_add_size f n⟩
    · refine .inl ?_
      rw [node_of_size_le (Nat.le_of_lt hx), node_of_size_le]
      rw [size_add]
      exact hx
  apply h.congr
  · intro x
    rcases hnode x with hx | ⟨hs, hx⟩
    · rw [parentOf, hx, parentOf]
    · rw [parentOf, hx, hp, parentOf_of_size_le hs]
  · intro x
    rcases hnode x with hx | ⟨hs, hx⟩
    · rw [childrenOf, hx, childrenOf]
    · rw [childrenOf, hx, hc, childrenOf_of_size_le hs]
  · intro x
    rcases hnode x with hx | ⟨hs, hx⟩
    · rw [hx]
    · rw [hx, hi, node_of_size_le hs]
      rfl

/-! ### Children that come and go -/

section

variable {p c : Nat}

theorem node_addChild (hp : p < f.size) (hc : c < f.size) (x : Nat) :
    (f.addChild p c).node x = { f.node x with
      parent := if x = c then some p else f.parentOf x
      children := if x = p then f.childrenOf x ++ [c] else f.childrenOf x } := by
  rw [addChild, node_modify_cases, node_modify_cases, size_modify]
  by_cases hxp : x = p
  · by_cases hxc : x = c
    · simp [← hxp, ← hxc, hxp ▸ hp, childrenOf]
    · simp [← hxp, Ne.symm hxc, hxc, hxp ▸ hp, childrenOf, parentOf]
  · by_cases hxc : x = c
    · simp [← hxc, Ne.symm hxp, hxp, hxc ▸ hc, childrenOf]
    · simp [Ne.symm hxp, Ne.symm hxc, hxp, hxc, childrenOf, parentOf]

theorem parentOf_addChild (hp : p < f.size) (hc : c < f.size) (x : Nat) :
    (f.addChild p c).parentOf x = if x = c then some p else f.parentOf x := by
  rw [parentOf, node_addChild hp hc]

theorem childrenOf_addChild (hp : p < f.size) (hc : c < f.size) (x : Nat) :
    (f.addChild p c).childrenOf x = if x = p then f.childrenOf x ++ [c] else f.childrenOf x := by
  rw [childrenOf, node_addChild hp hc]

@[simp] theorem size_addChild (f : Forest) (p c : NodeId) : (f.addChild p c).size = f.size := by
  rw [addChild, size_modify, size_modify]

theorem removeChild_eq_ok_iff : f.removeChild p c = .ok g ↔ c ∈ f.childrenOf p ∧
    g = (f.modify p fun n => { n with children := n.children.erase c }).modify c fun n =>
      { n with parent := none, inner := [] } := by
  unfold removeChild
  split
  · next h => simp [h, eq_comm]
  · next h => simp [h]

theorem size_removeChild (h : f.removeChild p c = .ok g) : g.size = f.size := by
  obtain ⟨-, rfl⟩ := removeChild_eq_ok_iff.mp h
  rw [size_modify, size_modify]

theorem node_removeChild (hp : p < f.size) (hc : c < f.size) (h : f.removeChild p c = .ok g)
    (x : Nat) : g.node x = { f.node x with
      parent := if x = c then none else f.parentOf x
      inner := if x = c then [] else (f.node x).inner
      children := if x = p then (f.childrenOf x).erase c else f.childrenOf x } := by
  obtain ⟨-, rfl⟩ := removeChild_eq_ok_iff.mp h
  rw [node_modify_cases, node_modify_cases, size_modify]
  by_cases hxp : x = p
  · by_cases hxc : x = c
    · simp [← hxp, ← hxc, hxp ▸ hp, childrenOf]
    · simp [← hxp, Ne.symm hxc, hxc, hxp ▸ hp, childrenOf, parentOf]
  · by_cases hxc : x = c
    · simp [← hxc, Ne.symm hxp, hxp, hxc ▸ hc, childrenOf]
    · simp [Ne.symm hxp, Ne.symm hxc, hxp, hxc, childrenOf, parentOf]

theorem parentOf_removeChild (hp : p < f.size) (hc : c < f.size) (h : f.removeChild p c = .ok g)
    (x : Nat) : g.parentOf x = if x = c then none else f.parentOf x := by
  rw [parentOf, node_removeChild hp hc h]

theorem childrenOf_removeChild (hp : p < f.size) (hc : c < f.size) (h : f.removeChild p c = .ok g)
    (x : Nat) : g.childrenOf x = if x = p then (f.childrenOf x).erase c else f.childrenOf x := by
  rw [childrenOf, node_removeChild hp hc h]

namespace Linked

theorem exists_height_of_moved (h : f.Linked) (hp : ∀ x, x ≠ c → g.parentOf x = f.parentOf x)
    (hc : ∃ n, g.Height n c) (x : Nat) : ∃ n, g.Height n x := by
  obtain ⟨n, hn⟩ := h.acyclic x
  induction n generalizing x with
  | zero =>
    by_cases hx : x = c
    · exact hx ▸ hc
    · exact ⟨0, (hp x hx).trans hn⟩
  | succ n ih =>
    by_cases hx : x = c
    · exact hx ▸ hc
    · obtain ⟨q, hq, hn⟩ := hn
      obtain ⟨m, hm⟩ := ih q hn
      exact ⟨m + 1, q, (hp x hx).trans hq, hm⟩

theorem height_addChild (h : f.Linked) (hp : p < f.size) (hc : c < f.size) {n : Nat} {x : Nat}
    (hr : ¬ f.Reaches c x) (hn : f.Height n x) : (f.addChild p c).Height n x := by
  have hxc : ∀ {y : Nat}, ¬ f.Reaches c y → y ≠ c := fun hy he => hy (he ▸ .refl)
  induction n generalizing x with
  | zero =>
    change (f.addChild p c).parentOf x = none
    rw [parentOf_addChild hp hc, if_neg (hxc hr)]
    exact hn
  | succ n ih =>
    obtain ⟨q, hq, hn⟩ := hn
    refine ⟨q, ?_, ih (fun hcq => hr (hcq.tail ((h.listed q x).mpr hq))) hn⟩
    rw [parentOf_addChild hp hc, if_neg (hxc hr)]
    exact hq

theorem addChild (h : f.Linked) (hp : p < f.size) (hc : c < f.size) (hn : f.parentOf c = none)
    (hr : ¬ f.Reaches c p) : (f.addChild p c).Linked where
  listed q d := by
    rw [childrenOf_addChild hp hc, parentOf_addChild hp hc]
    by_cases hd : d = c
    · subst hd
      have hq : d ∉ f.childrenOf q := fun hm => by simp [(h.listed q d).mp hm] at hn
      by_cases hqp : q = p
      · simp [hqp]
      · simp [hqp, hq, Ne.symm hqp]
    · by_cases hqp : q = p
      · simp [hqp, hd, h.listed]
      · simp [hqp, hd, h.listed]
  once q := by
    rw [childrenOf_addChild hp hc]
    split
    · refine List.nodup_append.mpr ⟨h.once q, by simp, ?_⟩
      rintro d hd e he rfl
      obtain rfl := List.mem_singleton.mp he
      rw [(h.listed q d).mp hd] at hn
      cases hn
    · exact h.once q
  acyclic := by
    obtain ⟨k, hk⟩ := h.acyclic p
    apply h.exists_height_of_moved (c := c)
    · intro x hx
      rw [parentOf_addChild hp hc, if_neg hx]
    · refine ⟨k + 1, p, ?_, h.height_addChild hp hc hr hk⟩
      rw [parentOf_addChild hp hc, if_pos rfl]
  inner x hx := by
    rw [parentOf_addChild hp hc] at hx
    rw [node_addChild hp hc]
    split at hx
    · cases hx
    · exact h.inner x hx

theorem removeChild (h : f.Linked) (hr : f.removeChild p c = .ok g) : g.Linked := by
  have hm := (removeChild_eq_ok_iff.mp hr).1
  have hcp := (h.listed p c).mp hm
  have hp := h.parent_lt hcp
  have hc : c < f.size := lt_size_of_parentOf hcp
  have hparent := parentOf_removeChild hp hc hr
  have hchildren := childrenOf_removeChild hp hc hr
  constructor
  · intro q d
    rw [hchildren, hparent]
    by_cases hqp : q = p
    · rw [if_pos hqp, (h.once q).mem_erase_iff, h.listed, hqp]
      by_cases hd : d = c <;> simp [hd]
    · rw [if_neg hqp, h.listed]
      by_cases hd : d = c
      · simp [hd, hcp, Ne.symm hqp]
      · simp [hd]
  · intro q
    rw [hchildren]
    split
    · exact (h.once q).erase c
    · exact h.once q
  · apply h.exists_height_of_moved (c := c)
    · intro x hx
      rw [hparent, if_neg hx]
    · refine ⟨0, ?_⟩
      change g.parentOf c = none
      rw [hparent, if_pos rfl]
  · intro x hx
    rw [node_removeChild hp hc hr]
    rw [hparent] at hx
    by_cases hxc : x = c
    · simp [hxc]
    · rw [if_neg hxc] at hx
      simp [hxc, h.inner x hx]

theorem remove (h : f.Linked) {id : NodeId} (hr : f.remove id = .ok g) : g.Linked := by
  unfold Forest.remove at hr
  split at hr
  · cases hr
  · exact h.removeChild hr

theorem segments_outside (h : f.Linked) (hs : g.size = f.size)
    (hp : ∀ x : Nat, x ≠ c → g.parentOf x = f.parentOf x)
    (hn : ∀ x : Nat, x ≠ c → (g.node x).name = (f.node x).name ∧
      (g.node x).inner = (f.node x).inner ∧ (g.node x).attributes = (f.node x).attributes)
    {x : Nat} (hx : x < f.size) (hr : ¬ f.Reaches c x) : g.segments x = f.segments x := by
  have hne : ∀ y : Nat, ¬ f.Reaches c y → y ≠ c := fun y hy he => hy (he ▸ .refl)
  have hc : Carries id (fun y => ¬ f.Reaches c y) f g := by
    refine ⟨fun y q hy hq hcq => hy (hcq.tail ((h.listed q y).mpr hq)), fun y hy => ?_,
      fun y hy => ?_, fun y hy => ?_⟩
    · rw [id, hp y (hne y hy)]
      cases f.parentOf y <;> rfl
    · obtain ⟨h1, h2, -⟩ := hn y (hne y hy)
      rw [id, Node.steps, Node.steps, h1, h2]
    · obtain ⟨-, h2, h3⟩ := hn y (hne y hy)
      rw [id, Node.isInstance, Node.isInstance, h2, h3]
  obtain ⟨n, hlt, hh⟩ := h.exists_height hx
  exact hc.segments hr hh hlt (hs ▸ hlt)

theorem segments_addChild (h : f.Linked) (hp : p < f.size) (hc : c < f.size)
    (hn : f.parentOf c = none) (hr : ¬ f.Reaches c p) :
    (f.addChild p c).segments p = f.segments p ∧
      (f.addChild p c).segments c = f.segments p ++ [(f.node c).name] := by
  have hout : (f.addChild p c).segments p = f.segments p := by
    refine h.segments_outside (c := c) (size_addChild f p c) (fun x hx => ?_) (fun x hx => ?_) hp hr
    · rw [parentOf_addChild hp hc, if_neg hx]
    · rw [node_addChild hp hc]
      exact ⟨rfl, rfl, rfl⟩
  have hup : (f.addChild p c).parentOf c = some p := by
    rw [parentOf_addChild hp hc, if_pos rfl]
  refine ⟨hout, ?_⟩
  rw [(h.addChild hp hc hn hr).segments_eq hup, hout, node_addChild hp hc, Node.steps,
    if_pos (h.inner c hn)]
  rfl

theorem reaches_removeChild (h : f.Linked) (hr : f.removeChild p c = .ok g) {x y : Nat}
    (hxy : g.Reaches x y) : f.Reaches x y := by
  have hcp := (h.listed p c).mp (removeChild_eq_ok_iff.mp hr).1
  induction hxy with
  | refl => exact .refl
  | @tail a b _ hl ih =>
    refine ih.tail ?_
    rw [Lists, childrenOf_removeChild (h.parent_lt hcp) (lt_size_of_parentOf hcp) hr] at hl
    split at hl
    · exact List.mem_of_mem_erase hl
    · exact hl

theorem moved (h : f.Linked) {q : Nat} (hq : f.parentOf c = some q) (hp : p < f.size)
    (hr : ¬ f.Reaches c p) : ∃ g, f.remove c = .ok g ∧ (g.addChild p c).Linked ∧
      (g.addChild p c).segments p = f.segments p ∧
      (g.addChild p c).segments c = f.segments p ++ [(f.node c).name] := by
  have hqs := h.parent_lt hq
  have hc : c < f.size := lt_size_of_parentOf hq
  obtain ⟨g, hg⟩ : ∃ g, f.removeChild q c = .ok g :=
    ⟨_, removeChild_eq_ok_iff.mpr ⟨(h.listed q c).mpr hq, rfl⟩⟩
  have hrem : f.remove c = .ok g := by
    rw [Forest.remove, hq]
    exact hg
  have hsize := size_removeChild hg
  have hnode := node_removeChild hqs hc hg
  have hg' := h.removeChild hg
  have hnone : g.parentOf c = none := by
    rw [parentOf_removeChild hqs hc hg, if_pos rfl]
  have hgr : ¬ g.Reaches c p := fun hcp => hr (h.reaches_removeChild hg hcp)
  have hout : g.segments p = f.segments p := by
    refine h.segments_outside hsize (fun x hx => ?_) (fun x hx => ?_) hp hr
    · rw [parentOf_removeChild hqs hc hg, if_neg hx]
    · rw [hnode]
      exact ⟨rfl, if_neg hx, rfl⟩
  rw [← hsize] at hp hc
  obtain ⟨hpp, hcc⟩ := hg'.segments_addChild hp hc hnone hgr
  have hname : (g.node c).name = (f.node c).name := by rw [hnode]
  exact ⟨g, hrem, hg'.addChild hp hc hnone hgr, hpp.trans hout, by rw [hcc, hout, hname]⟩

end Linked

end

/-! ### The removal of a group -/

theorem visitAll_preserves {P : Forest → Prop}
    {visit : Forest → NodeId → Forest × Except Fault (List Text)}
    (hv : ∀ f id, P f → P (visit f id).1) (ids : List NodeId) (h : P f) :
    P (visitAll visit f ids).1 := by
  induction ids generalizing f with
  | nil => exact h
  | cons id ids ih =>
    have hid := hv f id h
    rw [visitAll]
    split
    · next he =>
      rw [he] at hid
      exact hid
    · next he =>
      rw [he] at hid
      exact ih hid

theorem removeMembersWithin_preserves {P : Forest → Prop}
    (hP : ∀ f g id, P f → f.remove id = .ok g → P g) (group : Text) (depth : Nat) (id : NodeId)
    (h : P f) : P (removeMembersWithin group depth f id).1 := by
  induction depth generalizing f id with
  | zero => exact h
  | succ depth ih =>
    have hall : ∀ f ids, P f → P (visitAll (removeMembersWithin group depth) f ids).1 :=
      fun f ids hf => visitAll_preserves (fun f id hf => ih id hf) ids hf
    rw [removeMembersWithin]
    split
    · split
      · exact h
      · split
        · exact h
        · next g hg => exact hall g _ (hP f g id h hg)
    · exact hall f _ h

theorem size_remove {id : NodeId} (h : f.remove id = .ok g) : g.size = f.size := by
  unfold remove at h
  split at h
  · cases h
  · exact size_removeChild h

theorem Linked.removeMembers (h : f.Linked) (group : Text) (id : NodeId) :
    (f.removeMembers group id).1.Linked ∧ (f.removeMembers group id).1.size = f.size := by
  refine removeMembersWithin_preserves (P := fun g => g.Linked ∧ g.size = f.size) ?_ group _ id
    ⟨h, rfl⟩
  rintro g g' i ⟨hg, hs⟩ hr
  exact ⟨hg.remove hr, (size_remove hr).trans hs⟩

end Coursework.Scene.Forest
