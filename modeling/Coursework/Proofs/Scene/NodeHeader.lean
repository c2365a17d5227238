import Mathlib.Data.List.Nodup
import Coursework.Proofs.Scene.Section

namespace Coursework.Scene

open Text

namespace Node

def said? (n : Node) (key : Text) : Option Text :=
  if key = "groups" then if n.groups = [] then none else some (writeStrings n.groups)
  else Keyed.get? n.attributes key

def put (n : Node) (fields : Fields Text) (key : Text) : Fields Text :=
  match n.said? key with
  | some v => Keyed.set fields key v
  | none => fields

def extras (n : Node) : Fields Text := n.keyOrder.foldl n.put []

def front (n : Node) (parent : Option Text) : Fields Text :=
  ("name".toList, quote n.name) ::
    ((if n.type = [] then [] else [("type".toList, quote n.type)]) ++
      (parent.map fun p => ("parent".toList, quote p)).toList)

def reread (n : Node) : Node where
  name := n.name
  type := n.type
  attributes := n.extras.filter fun a => a.1 != "groups".toList
  order := Keyed.keys n.extras
  properties := n.properties
  groups := n.groups

def OwnKeys (n : Node) : Prop := ∀ k ∈ Keyed.keys n.attributes, k ∉ nodeKeys ∧ k ≠ "groups".toList

def ownOrder (n : Node) : List Text :=
  let kept := n.order.filter fun k => Keyed.has n.attributes k || k == "groups".toList
  kept ++ (Keyed.keys n.attributes).filter fun k => !kept.contains k

theorem keyOrder_eq (n : Node) : n.keyOrder =
    if n.ownOrder.contains "groups".toList then n.ownOrder
    else n.ownOrder ++ ["groups".toList] := rfl

theorem mem_ownOrder {n : Node} {k : Text} : k ∈ n.ownOrder ↔
    k ∈ Keyed.keys n.attributes ∨ (k = "groups".toList ∧ k ∈ n.order) := by
  simp only [ownOrder, List.mem_append, List.mem_filter, Bool.or_eq_true, Keyed.has_iff, beq_iff_eq,
    Bool.not_eq_true', List.contains_eq_mem, decide_eq_false_iff_not]
  tauto

theorem mem_keyOrder {n : Node} {k : Text} :
    k ∈ n.keyOrder ↔ k ∈ Keyed.keys n.attributes ∨ k = "groups".toList := by
  rw [keyOrder_eq]
  split
  · next h =>
    rw [List.contains_iff_mem, mem_ownOrder] at h
    rw [mem_ownOrder]
    constructor
    · tauto
    · rintro (hk | rfl)
      · exact .inl hk
      · exact h
  · rw [List.mem_append, mem_ownOrder, List.mem_singleton]
    tauto

theorem said?_eq_none {n : Node} {k : Text} (h : k ∉ n.keyOrder) : n.said? k = none := by
  rw [mem_keyOrder, not_or] at h
  rw [said?, if_neg h.2]
  exact Keyed.get?_eq_none_iff.mpr h.1

theorem get?_put (n : Node) (fields : Fields Text) (key k : Text) :
    Keyed.get? (n.put fields key) k =
      if k = key then (n.said? key).or (Keyed.get? fields k) else Keyed.get? fields k := by
  unfold put
  cases n.said? key with
  | none => simp
  | some v => simp [Keyed.get?_set]

theorem get?_foldl_put (n : Node) (fields : Fields Text) (ks : List Text) (k : Text) :
    Keyed.get? (ks.foldl n.put fields) k =
      if k ∈ ks then (n.said? k).or (Keyed.get? fields k) else Keyed.get? fields k := by
  induction ks generalizing fields with
  | nil => simp
  | cons key ks ih =>
    rw [List.foldl_cons, ih, get?_put]
    by_cases hk : k = key
    · subst hk
      cases n.said? k <;> simp
    · simp [hk]

@[simp] theorem get?_extras (n : Node) (k : Text) : Keyed.get? n.extras k = n.said? k := by
  rw [extras, get?_foldl_put]
  split
  · simp [Keyed.get?]
  · next h => simp [Keyed.get?, said?_eq_none h]

theorem nodup_keys_foldl_put (n : Node) {fields : Fields Text} (ks : List Text)
    (h : (Keyed.keys fields).Nodup) : (Keyed.keys (ks.foldl n.put fields)).Nodup := by
  induction ks generalizing fields with
  | nil => exact h
  | cons key ks ih =>
    apply ih
    unfold put
    cases n.said? key with
    | none => exact h
    | some v => exact Keyed.nodup_keys_set h key v

theorem nodup_keys_extras (n : Node) : (Keyed.keys n.extras).Nodup :=
  n.nodup_keys_foldl_put _ (by simp)

theorem mem_keys_extras {n : Node} {k : Text} :
    k ∈ Keyed.keys n.extras ↔ (n.said? k).isSome = true := by
  rw [← Keyed.has_iff, Keyed.has, get?_extras]

theorem foldl_put_append (n : Node) {front : Fields Text} (fields : Fields Text) {ks : List Text}
    (h : ∀ k ∈ ks, k ∉ Keyed.keys front) :
    ks.foldl n.put (front ++ fields) = front ++ ks.foldl n.put fields := by
  induction ks generalizing fields with
  | nil => rfl
  | cons key ks ih =>
    have hp : n.put (front ++ fields) key = front ++ n.put fields key := by
      unfold put
      cases n.said? key with
      | none => rfl
      | some v => exact Keyed.set_append fields v (h key (by simp))
    rw [List.foldl_cons, hp, ih _ fun k hk => h k (List.mem_cons_of_mem _ hk), List.foldl_cons]

theorem mem_nodeKeys_of_front {n : Node} {parent : Option Text} {k : Text}
    (h : k ∈ Keyed.keys (n.front parent)) : k ∈ nodeKeys := by
  unfold front at h
  cases parent <;> by_cases ht : n.type = [] <;> simp [ht, nodeKeys] at h ⊢ <;> tauto

theorem groups_not_mem_nodeKeys : "groups".toList ∉ nodeKeys := by decide

theorem OwnKeys.not_mem_nodeKeys {n : Node} (h : n.OwnKeys) {k : Text} (hk : k ∈ n.keyOrder) :
    k ∉ nodeKeys := by
  rcases mem_keyOrder.mp hk with hk | rfl
  · exact (h k hk).1
  · exact groups_not_mem_nodeKeys

theorem OwnKeys.extras {n : Node} (h : n.OwnKeys) {k : Text} (hk : k ∈ Keyed.keys n.extras) :
    k ∉ nodeKeys := by
  apply h.not_mem_nodeKeys
  by_contra hn
  simp [mem_keys_extras, said?_eq_none hn] at hk

end Node

theorem Forest.sectionOf_eq_foldl (f : Forest) (id : NodeId) :
    f.sectionOf id = ⟨"node", (f.node id).keyOrder.foldl (f.node id).put
      ((f.node id).front (f.parentPath id)), (f.node id).properties⟩ := by
  dsimp only [Forest.sectionOf]
  congr 2
  · funext fields key
    unfold Node.put Node.said?
    by_cases hk : key = "groups".toList
    · subst hk
      by_cases hg : (f.node id).groups = [] <;> simp only [hg, if_true, if_false]
    · cases Keyed.get? (f.node id).attributes key <;> simp only [hk, if_false]
  · cases f.parentPath id <;> by_cases ht : (f.node id).type = [] <;>
      simp [Node.front, ht, Keyed.set]

theorem Forest.sectionOf_eq (f : Forest) (id : NodeId) (h : (f.node id).OwnKeys) :
    f.sectionOf id = ⟨"node", (f.node id).front (f.parentPath id) ++ (f.node id).extras,
      (f.node id).properties⟩ := by
  have hf : ∀ k ∈ (f.node id).keyOrder, k ∉ Keyed.keys ((f.node id).front (f.parentPath id)) :=
    fun k hk hm => h.not_mem_nodeKeys hk (Node.mem_nodeKeys_of_front hm)
  have hfold := (f.node id).foldl_put_append [] hf
  rw [List.append_nil] at hfold
  rw [Forest.sectionOf_eq_foldl, hfold, Node.extras]

namespace Node

theorem get?_front_extras {n : Node} (h : n.OwnKeys) (parent : Option Text) (k : Text) :
    Keyed.get? (n.front parent ++ n.extras) k =
      if k ∈ nodeKeys then Keyed.get? (n.front parent) k else n.said? k := by
  rw [Keyed.get?_append, get?_extras]
  split
  · next hk =>
    have he : n.said? k = none := by
      by_contra hn
      exact h.extras (mem_keys_extras.mpr (Option.isSome_iff_ne_none.mpr hn)) hk
    simp [he]
  · next hk =>
    rw [Keyed.get?_eq_none_iff.mpr fun hm => hk (mem_nodeKeys_of_front hm)]
    rfl

theorem filter_front {n : Node} {parent : Option Text} {p : Text × Text → Bool}
    (h : ∀ a, a.1 ∈ nodeKeys → p a = false) : (n.front parent).filter p = [] := by
  rw [List.filter_eq_nil_iff]
  intro a ha
  simp [h a (mem_nodeKeys_of_front (Keyed.mem_keys_of_mem ha))]

theorem nodeOf?_front_extras {n : Node} (h : n.OwnKeys) (parent : Option Text) :
    nodeOf? ⟨"node", n.front parent ++ n.extras, n.properties⟩ = some n.reread := by
  have hname : Keyed.get? (n.front parent ++ n.extras) "name".toList = some (quote n.name) := by
    rw [get?_front_extras h, if_pos (by decide)]
    simp [front, Keyed.get?]
  have htype : unquote ((Keyed.get? (n.front parent ++ n.extras) "type".toList).getD
      ['\x22', '\x22']) = n.type := by
    rw [get?_front_extras h, if_pos (by decide)]
    by_cases ht : n.type = []
    · cases parent <;> simp [front, ht, Keyed.get?] <;> decide
    · simp [front, ht, Keyed.get?]
  have hgroups : readStrings ((Keyed.get? (n.front parent ++ n.extras) "groups".toList).getD
      ['[', ']']) = n.groups := by
    rw [get?_front_extras h, if_neg groups_not_mem_nodeKeys, said?, if_pos rfl]
    by_cases hg : n.groups = []
    · rw [if_pos hg, hg]
      decide
    · simp [hg]
  have hattributes : (n.front parent ++ n.extras).filter
      (fun a => !nodeKeys.contains a.1 && a.1 != "groups".toList) = n.reread.attributes := by
    rw [List.filter_append, filter_front fun a ha => by simp [ha]]
    apply List.filter_congr
    intro a ha
    simp [h.extras (Keyed.mem_keys_of_mem ha)]
  have horder : (Keyed.keys (n.front parent ++ n.extras)).filter (fun k => !nodeKeys.contains k) =
      Keyed.keys n.extras := by
    rw [Keyed.keys_append, List.filter_append]
    have h1 : (Keyed.keys (n.front parent)).filter (fun k => !nodeKeys.contains k) = [] := by
      rw [List.filter_eq_nil_iff]
      intro k hk
      simp [mem_nodeKeys_of_front hk]
    rw [h1, List.nil_append, List.filter_eq_self]
    intro k hk
    simp [h.extras hk]
  unfold nodeOf?
  simp only [hname, htype, hgroups, hattributes, horder, Option.map_some, unquote_quote]
  rfl

theorem get?_parent_front (n : Node) (h : n.OwnKeys) (parent : Option Text) :
    Keyed.get? (n.front parent ++ n.extras) "parent".toList = parent.map quote := by
  rw [get?_front_extras h, if_pos (by decide)]
  cases parent <;> by_cases ht : n.type = [] <;> simp [front, ht, Keyed.get?]

/-! ### Attributes and their order -/

theorem get?_filter_ne (fs : Fields Text) (key k : Text) :
    Keyed.get? (fs.filter fun a => a.1 != key) k = if k = key then none else Keyed.get? fs k := by
  rw [Keyed.get?_filter fs (· != key)]
  by_cases hk : k = key <;> simp [hk]

theorem get?_reread_attributes {n : Node} (h : n.OwnKeys) (k : Text) :
    Keyed.get? n.reread.attributes k = Keyed.get? n.attributes k := by
  rw [reread, get?_filter_ne, get?_extras]
  split
  · next hk =>
    subst hk
    exact (Keyed.get?_eq_none_iff.mpr fun hm => (h _ hm).2 rfl).symm
  · next hk => rw [said?, if_neg hk]

theorem OwnKeys.reread {n : Node} (h : n.OwnKeys) : n.reread.OwnKeys := by
  intro k hk
  apply h k
  rwa [← Keyed.has_iff, Keyed.has, get?_reread_attributes h, ← Keyed.has, Keyed.has_iff] at hk

theorem reread_attributes_perm {n : Node} (h : n.OwnKeys)
    (hn : (Keyed.keys n.attributes).Nodup) : n.reread.attributes.Perm n.attributes := by
  refine Keyed.perm_of_get?_eq ?_ hn (get?_reread_attributes h)
  exact (List.filter_sublist.map Prod.fst).nodup n.nodup_keys_extras

structure InOrder (n : Node) : Prop where
  nodup : n.order.Nodup
  keys : Keyed.keys n.attributes = n.order.filter fun k => k != "groups".toList

theorem InOrder.ownOrder {n : Node} (h : n.InOrder) : n.ownOrder = n.order := by
  have hk : (n.order.filter fun k => Keyed.has n.attributes k || k == "groups".toList) = n.order := by
    rw [List.filter_eq_self]
    intro k hk
    rw [Bool.or_eq_true, Keyed.has_iff, h.keys, List.mem_filter, beq_iff_eq, bne_iff_ne]
    tauto
  have hr : (Keyed.keys n.attributes).filter (fun k => !n.order.contains k) = [] := by
    rw [List.filter_eq_nil_iff, h.keys]
    intro k hk
    simp [(List.mem_filter.mp hk).1]
  simp only [Node.ownOrder, hk, hr, List.append_nil]

theorem foldl_put_of_nodup (n : Node) {fields : Fields Text} {ks : List Text} (h : ks.Nodup)
    (hd : ∀ k ∈ ks, k ∉ Keyed.keys fields) :
    ks.foldl n.put fields = fields ++ ks.filterMap fun k => (n.said? k).map (k, ·) := by
  induction ks generalizing fields with
  | nil => simp
  | cons k ks ih =>
    obtain ⟨hk, hn⟩ := List.nodup_cons.mp h
    rw [List.foldl_cons]
    cases he : n.said? k with
    | none =>
      have hput : n.put fields k = fields := by simp [put, he]
      rw [hput, ih hn fun j hj => hd j (List.mem_cons_of_mem _ hj), List.filterMap_cons, he]
      rfl
    | some v =>
      have hput : n.put fields k = fields ++ [(k, v)] := by
        simp [put, he, Keyed.set_of_not_mem v (hd k (by simp))]
      rw [hput, ih hn, List.filterMap_cons, he]
      · simp
      · intro j hj hm
        simp only [Keyed.keys_append, Keyed.keys_cons, Keyed.keys_nil, List.mem_append,
          List.mem_singleton] at hm
        rcases hm with hm | rfl
        · exact hd j (List.mem_cons_of_mem _ hj) hm
        · exact hk hj

theorem filterMap_get? {fs : Fields Text} (h : (Keyed.keys fs).Nodup) :
    (Keyed.keys fs).filterMap (fun k => (Keyed.get? fs k).map (k, ·)) = fs := by
  have hm : ∀ a ∈ fs, (Keyed.get? fs a.1).map (a.1, ·) = some a := fun a ha => by
    simp [Keyed.get?_of_mem h ha]
  rw [Keyed.keys, List.filterMap_map]
  exact (List.filterMap_congr hm).trans List.filterMap_some

theorem InOrder.extras {n : Node} (h : n.InOrder) :
    n.extras = n.keyOrder.filterMap fun k => (n.said? k).map (k, ·) := by
  have hn : n.keyOrder.Nodup := by
    rw [keyOrder_eq, h.ownOrder]
    split
    · exact h.nodup
    · next hg =>
      rw [List.contains_iff_mem] at hg
      refine List.nodup_append.mpr ⟨h.nodup, by simp, ?_⟩
      rintro a ha b hb rfl
      rw [List.mem_singleton] at hb
      rw [hb] at ha
      exact hg ha
  exact n.foldl_put_of_nodup hn (by simp)

theorem keys_filter (fs : Fields Text) (p : Text → Bool) :
    Keyed.keys (fs.filter fun a => p a.1) = (Keyed.keys fs).filter p := by
  rw [Keyed.keys, Keyed.keys, List.filter_map]
  rfl

theorem inOrder_reread (n : Node) : n.reread.InOrder where
  nodup := n.nodup_keys_extras
  keys := keys_filter n.extras fun k => k != "groups".toList

theorem said?_reread (n : Node) (k : Text) : n.reread.said? k = n.said? k := by
  rw [said?, said?]
  split
  · rfl
  · next hk => rw [reread, get?_filter_ne, if_neg hk, get?_extras, said?, if_neg hk]

theorem extras_reread (n : Node) : n.reread.extras = n.extras := by
  have hk : n.reread.keyOrder.filterMap (fun k => (n.reread.said? k).map (k, ·)) =
      (Keyed.keys n.extras).filterMap fun k => (n.said? k).map (k, ·) := by
    simp only [said?_reread]
    rw [keyOrder_eq, n.inOrder_reread.ownOrder]
    split
    · rfl
    · next hg =>
      have hg' : n.said? "groups".toList = none := by
        rw [← Option.not_isSome_iff_eq_none, ← mem_keys_extras, ← List.contains_iff_mem]
        exact hg
      rw [List.filterMap_append, List.filterMap_cons, hg']
      simp [reread]
  rw [n.inOrder_reread.extras, hk]
  simpa using filterMap_get? n.nodup_keys_extras

theorem filter_filterMap_keys (g : Text → Option Text) (p : Text → Bool) (ks : List Text) :
    (ks.filterMap fun k => (g k).map (k, ·)).filter (fun a => p a.1) =
      (ks.filter p).filterMap fun k => (g k).map (k, ·) := by
  induction ks with
  | nil => rfl
  | cons k ks ih => cases hg : g k <;> by_cases hp : p k <;> simp [hg, hp, ih]

theorem InOrder.reread_attributes {n : Node} (h : n.InOrder) : n.reread.attributes = n.attributes := by
  have hn : (Keyed.keys n.attributes).Nodup := h.keys ▸ h.nodup.filter _
  have hk : n.keyOrder.filter (fun k => k != "groups".toList) = Keyed.keys n.attributes := by
    rw [keyOrder_eq, h.ownOrder, h.keys]
    split
    · rfl
    · simp
  have he : ∀ k ∈ Keyed.keys n.attributes, (n.said? k).map (k, ·) =
      (Keyed.get? n.attributes k).map (k, ·) := fun k hk' => by
    rw [← hk, List.mem_filter, bne_iff_ne] at hk'
    rw [said?, if_neg hk'.2]
  rw [reread, h.extras]
  change List.filter _ _ = _
  rw [filter_filterMap_keys n.said? fun k => k != "groups".toList, hk, List.filterMap_congr he,
    filterMap_get? hn]

/-! ### Nodes that are read -/

theorem ownKeys_of_nodeOf? {s : Section} {n : Node} (h : nodeOf? s = some n) : n.OwnKeys := by
  obtain ⟨name, -, rfl⟩ := Option.map_eq_some_iff.mp h
  intro k hk
  obtain ⟨a, ha, rfl⟩ := List.mem_map.mp hk
  simpa using (List.mem_filter.mp ha).2

theorem inOrder_of_nodeOf? {s : Section} {n : Node} (hs : (Keyed.keys s.attributes).Nodup)
    (h : nodeOf? s = some n) : n.InOrder := by
  obtain ⟨name, -, rfl⟩ := Option.map_eq_some_iff.mp h
  refine ⟨hs.filter _, ?_⟩
  rw [keys_filter s.attributes fun k => !nodeKeys.contains k && k != "groups".toList,
    List.filter_filter]
  exact List.filter_congr fun k _ => Bool.and_comm _ _

/-! ### Nodes that can be written -/

structure Printable (n : Node) : Prop where
  name : Unbroken n.name
  type : Unbroken n.type
  groups : ∀ g ∈ n.groups, Unbroken g
  inner : Unbroken n.inner
  ownKeys : n.OwnKeys
  attributeKeys : (Keyed.keys n.attributes).Nodup
  attributes : ∀ a ∈ n.attributes, Section.IsHeaderKey a.1 ∧ Unbroken a.2 ∧ Whole a.2
  propertyKeys : (Keyed.keys n.properties).Nodup
  properties : ∀ p ∈ n.properties, Section.IsPropertyKey p.1 ∧ Section.Entire p.2

instance : DecidablePred OwnKeys := fun n =>
  inferInstanceAs (Decidable (∀ k ∈ Keyed.keys n.attributes, k ∉ nodeKeys ∧ k ≠ "groups".toList))

instance : DecidablePred Printable := fun n =>
  decidable_of_iff ((Unbroken n.name ∧ Unbroken n.type ∧ (∀ g ∈ n.groups, Unbroken g) ∧
      Unbroken n.inner) ∧ (n.OwnKeys ∧ (Keyed.keys n.attributes).Nodup ∧
      ∀ a ∈ n.attributes, Section.IsHeaderKey a.1 ∧ Unbroken a.2 ∧ Whole a.2) ∧
      (Keyed.keys n.properties).Nodup ∧
      ∀ p ∈ n.properties, Section.IsPropertyKey p.1 ∧ Section.Entire p.2)
    ⟨fun ⟨⟨h1, h2, h3, h4⟩, ⟨h5, h6, h7⟩, h8, h9⟩ => ⟨h1, h2, h3, h4, h5, h6, h7, h8, h9⟩,
      fun h => ⟨⟨h.name, h.type, h.groups, h.inner⟩, ⟨h.ownKeys, h.attributeKeys, h.attributes⟩,
        h.propertyKeys, h.properties⟩⟩

theorem isHeaderKey_of_mem {k : Text} (h : k ∈ "groups".toList :: nodeKeys) :
    Section.IsHeaderKey k := by
  simp only [nodeKeys, List.mem_cons, List.not_mem_nil, or_false] at h
  rcases h with rfl | rfl | rfl | rfl
  all_goals decide

theorem Printable.extras {n : Node} (h : n.Printable) {a : Text × Text} (ha : a ∈ n.extras) :
    Section.IsHeaderKey a.1 ∧ Unbroken a.2 ∧ Whole a.2 := by
  have he := Keyed.get?_of_mem n.nodup_keys_extras ha
  rw [get?_extras, said?] at he
  split at he
  · next hk =>
    split at he
    · cases he
    · obtain he := Option.some.inj he
      rw [← he, hk]
      exact ⟨isHeaderKey_of_mem (by simp), unbroken_writeStrings h.groups, whole_writeStrings _⟩
  · exact h.attributes a (Keyed.mem_of_get? he)

theorem mem_front {n : Node} {parent : Option Text} {a : Text × Text} (h : a ∈ n.front parent) :
    a = ("name".toList, quote n.name) ∨ a = ("type".toList, quote n.type) ∨
      ∃ p, parent = some p ∧ a = ("parent".toList, quote p) := by
  rw [front, List.mem_cons, List.mem_append] at h
  rcases h with h | h | h
  · exact .inl h
  · split at h
    · cases h
    · exact .inr (.inl (List.mem_singleton.mp h))
  · cases parent with
    | none => cases h
    | some p => exact .inr (.inr ⟨p, rfl, List.mem_singleton.mp h⟩)

theorem Printable.front {n : Node} (h : n.Printable) {parent : Option Text}
    (hp : ∀ p, parent = some p → Unbroken p) {a : Text × Text} (ha : a ∈ n.front parent) :
    Section.IsHeaderKey a.1 ∧ Unbroken a.2 ∧ Whole a.2 := by
  rcases mem_front ha with rfl | rfl | ⟨p, hp', rfl⟩
  · exact ⟨isHeaderKey_of_mem (by simp [nodeKeys]), unbroken_quote h.name, whole_quote _⟩
  · exact ⟨isHeaderKey_of_mem (by simp [nodeKeys]), unbroken_quote h.type, whole_quote _⟩
  · exact ⟨isHeaderKey_of_mem (by simp [nodeKeys]), unbroken_quote (hp p hp'), whole_quote _⟩

theorem nodup_keys_front (n : Node) (parent : Option Text) :
    (Keyed.keys (n.front parent)).Nodup := by
  cases parent <;> by_cases ht : n.type = [] <;> simp [Node.front, ht]

theorem Printable.wellFormed {f : Forest} {id : NodeId} (h : (f.node id).Printable)
    (hp : ∀ p, f.parentPath id = some p → Unbroken p) : (f.sectionOf id).WellFormed := by
  rw [f.sectionOf_eq id h.ownKeys]
  refine ⟨⟨'n', "ode".toList, rfl, by decide, ?_⟩, ?_, fun a ha => ?_, h.propertyKeys,
    h.properties⟩
  · exact List.all_eq_true.mp (show "node".toList.all isWord = true by decide +kernel)
  · rw [Keyed.keys_append]
    refine List.nodup_append.mpr ⟨nodup_keys_front _ _, nodup_keys_extras _, ?_⟩
    rintro k hk _ hk' rfl
    exact h.ownKeys.extras hk' (mem_nodeKeys_of_front hk)
  · rcases List.mem_append.mp ha with ha | ha
    · exact h.front hp ha
    · exact h.extras ha

end Node

end Coursework.Scene
