import Coursework.Proofs.Scene.Reading

namespace Coursework.Scene

namespace Section

def isNode (s : Section) : Bool := s.tag == "node".toList

def kept (s : Section) : Fields Text := s.attributes.filterMap fun a =>
  if nodeKeys.contains a.1 then none
  else if a.1 = "groups".toList then
    if readStrings a.2 = [] then none else some (a.1, writeStrings (readStrings a.2))
  else some a

theorem isNode_iff {s : Section} : s.isNode = true ↔ s.tag = "node".toList := by
  rw [isNode, beq_iff_eq]

theorem isNode_eq_false {s : Section} : s.isNode = false ↔ s.tag ≠ "node".toList := by
  rw [isNode, beq_eq_false_iff_ne]

end Section

def nodeSections (sections : List Section) : List Section := sections.filter Section.isNode

/-! ### A node and its section -/

namespace Node

def IsRead (n : Node) (s : Section) : Prop :=
  nodeOf? s = some { n with inner := [], parent := none, children := [] }

variable {n : Node} {s : Section}

theorem said?_of_nodeOf? (h : nodeOf? s = some n) {a : Text × Text} (hk : (Keyed.keys s.attributes).Nodup)
    (ha : a ∈ s.attributes) (hn : a.1 ∉ nodeKeys) : (n.said? a.1).map (a.1, ·) =
      if a.1 = "groups".toList then
        if readStrings a.2 = [] then none else some (a.1, writeStrings (readStrings a.2))
      else some a := by
  obtain ⟨name, -, rfl⟩ := Option.map_eq_some_iff.mp h
  have hv := Keyed.get?_of_mem hk ha
  rw [said?]
  split
  · next hg =>
    rw [hg] at hv
    simp only [hv, Option.getD_some]
    split <;> rfl
  · next hg =>
    have hp : (!nodeKeys.contains a.1 && a.1 != "groups".toList) = true := by
      rw [Bool.and_eq_true, bne_iff_ne]
      exact ⟨by simpa using hn, hg⟩
    rw [Keyed.get?_filter s.attributes fun k => !nodeKeys.contains k && k != "groups".toList,
      if_pos hp, hv]
    rfl

theorem extras_of_nodeOf? (hk : (Keyed.keys s.attributes).Nodup) (h : nodeOf? s = some n) :
    n.extras = s.kept := by
  have ho := inOrder_of_nodeOf? hk h
  have hkeys : n.order = (Keyed.keys s.attributes).filter fun k => !nodeKeys.contains k := by
    obtain ⟨name, -, rfl⟩ := Option.map_eq_some_iff.mp h
    rfl
  have hgroups : "groups".toList ∉ n.order → n.said? "groups".toList = none := by
    obtain ⟨name, -, rfl⟩ := Option.map_eq_some_iff.mp h
    intro hg
    have hnone : Keyed.get? s.attributes "groups".toList = none :=
      Keyed.get?_eq_none_iff.mpr fun hm => hg (List.mem_filter.mpr ⟨hm, by decide⟩)
    simp only [said?, if_true, hnone, Option.getD_none]
    decide
  have hall : n.extras = n.order.filterMap fun k => (n.said? k).map (k, ·) := by
    rw [ho.extras, keyOrder_eq, ho.ownOrder]
    split
    · rfl
    · next hg =>
      rw [List.contains_iff_mem] at hg
      rw [List.filterMap_append, List.filterMap_cons, hgroups hg]
      simp
  rw [hall, hkeys, List.filterMap_filter, Keyed.keys, List.filterMap_map, Section.kept]
  apply List.filterMap_congr
  intro a ha
  by_cases hn : a.1 ∈ nodeKeys
  · simp [hn]
  · have hkeys : nodeKeys.contains a.1 = false := by
      rw [← Bool.not_eq_true, List.contains_iff_mem]
      exact hn
    simp only [Function.comp_apply, hkeys, Bool.not_false, if_true, Bool.false_eq_true, if_false]
    exact said?_of_nodeOf? h hk ha hn

end Node

theorem Forest.sectionOf_of_isRead {f : Forest} {i : NodeId} {s : Section}
    (h : (f.node i).IsRead s) (hk : (Keyed.keys s.attributes).Nodup) :
    f.sectionOf i = ⟨"node", (f.node i).front (f.parentPath i) ++ s.kept, s.properties⟩ := by
  obtain ⟨n, hn, he⟩ : ∃ n, nodeOf? s = some n ∧
      n = { f.node i with inner := [], parent := none, children := [] } := ⟨_, h, rfl⟩
  have ho : n.OwnKeys := Node.ownKeys_of_nodeOf? hn
  have hx : n.extras = s.kept := Node.extras_of_nodeOf? hk hn
  have hp : s.properties = n.properties := by
    obtain ⟨name, -, rfl⟩ := Option.map_eq_some_iff.mp hn
    rfl
  subst he
  rw [f.sectionOf_eq i ho, ← hx, hp]
  rfl

/-! ### Where a node goes -/

namespace Forest

variable {f : Forest}

def Latest (f : Forest) (i : Nat) (path : Text) (q : Nat) : Prop :=
  q < i ∧ f.path q = path ∧ ∀ y, q < y → y < i → f.path y ≠ path

/-- A node goes below the last node before it that has its parent path. If there is none, then it
is inside of an instanced scene and goes below the node with the longest beginning of the path. -/
inductive Hangs (f : Forest) (i : Nat) (path : Text) : Prop
  | declared (q : Nat) (latest : f.Latest i path q) (parent : f.parentOf i = some q)
      (inner : (f.node i).inner = [])
  | within (c q : Nat) (undeclared : ∀ j < i, f.path j ≠ path)
      (short : c < (Text.splitOn '/' path).length)
      (latest : f.Latest i (pathText ((Text.splitOn '/' path).take c)) q)
      (longest : ∀ d, c < d → d < (Text.splitOn '/' path).length → ∀ j < i,
        f.path j ≠ pathText ((Text.splitOn '/' path).take d))
      (instanced : f.instanced q = true) (parent : f.parentOf i = some q)
      (inner : (f.node i).inner = Text.join ['/'] ((Text.splitOn '/' path).drop c))

theorem exists_latest {i j : Nat} {path : Text} (hj : j < i) (hp : f.path j = path) :
    ∃ q, f.Latest i path q := by
  induction i with
  | zero => omega
  | succ i ih =>
    by_cases hi : f.path i = path
    · exact ⟨i, by omega, hi, fun y h1 h2 => by omega⟩
    · have hji : j ≠ i := fun he => hi (he ▸ hp)
      obtain ⟨q, hq, hqp, hl⟩ := ih (by omega)
      refine ⟨q, by omega, hqp, fun y h1 h2 => ?_⟩
      by_cases hy : y = i
      · exact hy ▸ hi
      · exact hl y h1 (by omega)

theorem path_of_none {i : NodeId} (h : f.parentOf i = none) : f.path i = ['.'] := by
  rw [path, segments_of_none h]
  rfl

def IsParentPath (path : Text) : Prop :=
  path = ['.'] ∨ ∃ names, names ≠ [] ∧ Parts names ∧ path = Text.join ['/'] names

theorem Hangs.parentPath {i : Nat} {path : Text} (h : f.Hangs i path) (h0 : 0 < i)
    (hroot : f.parentOf 0 = none) (hp : IsParentPath path) : f.parentPath i = some path := by
  rcases h with ⟨q, ⟨-, hq, -⟩, hpar, hin⟩ | ⟨c, q, hun, hc, ⟨-, hq, -⟩, -, -, hpar, hin⟩
  · simp [Forest.parentPath, hpar, hin, hq]
  · rcases hp with rfl | ⟨names, hne, hn, rfl⟩
    · exact absurd (path_of_none hroot) (hun 0 h0)
    · rw [Text.splitOn_join hne fun w hw => (hn w hw).2.2] at hc hq hin
      have hrest : names.drop c ≠ [] := by
        rw [Ne, List.drop_eq_nil_iff]
        omega
      have hinner : Text.join ['/'] (names.drop c) ≠ [] :=
        Parts.join_ne_nil (fun w hw => hn w (List.mem_of_mem_drop hw)) hrest
      simp only [Forest.parentPath, hpar, Option.map_some, hq, hin, if_neg hinner]
      cases c with
      | zero => simp [pathText, Text.join]
      | succ c =>
        have hfront : names.take (c + 1) ≠ [] := by
          rw [Ne, List.take_eq_nil_iff]
          simp [hne]
        have hparts : Parts (names.take (c + 1)) := fun w hw => hn w (List.mem_of_mem_take hw)
        rw [if_neg (pathText_ne_dot hparts hfront), pathText_of_ne_nil hparts hfront,
          ← Text.join_append _ hfront hrest, List.take_append_drop]

section Hang

variable {n : Node} {p i q : Nat} {path : Text}

theorem path_hang (h : f.Nested) (n : Node) (p : Nat) (hi : i < f.size) :
    (f.hang n p).path i = f.path i := by
  rw [Forest.path, h.segments_hang n p hi, Forest.path]

theorem inner_hang (n : Node) (p : Nat) (hi : i < f.size) :
    ((f.hang n p).node i).inner = (f.node i).inner := by
  rw [node_hang_of_lt n p hi]
  split <;> rfl

theorem latest_hang (h : f.Nested) (hi : i ≤ f.size) :
    (f.hang n p).Latest i path q ↔ f.Latest i path q := by
  unfold Latest
  refine and_congr_right fun hq => ?_
  rw [path_hang h n p (by omega)]
  refine and_congr_right fun _ => forall_congr' fun y => ?_
  constructor
  · intro hy h1 h2
    rw [← path_hang h n p (by omega)]
    exact hy h1 h2
  · intro hy h1 h2
    rw [path_hang h n p (by omega)]
    exact hy h1 h2

theorem latest_hang_size (h : f.Nested) :
    (f.hang n p).Latest (f.size + 1) path q ↔
      if path = (f.hang n p).path f.size then q = f.size else f.Latest f.size path q := by
  split
  · next hp =>
    constructor
    · rintro ⟨hq, -, hl⟩
      by_contra hne
      exact hl f.size (by omega) (by omega) hp.symm
    · rintro rfl
      exact ⟨Nat.lt_succ_self _, hp.symm, fun y h1 h2 => by omega⟩
  · next hp =>
    rw [← latest_hang h (n := n) (p := p) (Nat.le_refl _)]
    constructor
    · rintro ⟨hq, hqp, hl⟩
      have hne : q ≠ f.size := fun he => hp (he ▸ hqp.symm)
      exact ⟨by omega, hqp, fun y h1 h2 => hl y h1 (by omega)⟩
    · rintro ⟨hq, hqp, hl⟩
      refine ⟨by omega, hqp, fun y h1 h2 => ?_⟩
      by_cases hy : y = f.size
      · exact fun he => hp (hy ▸ he.symm)
      · exact hl y h1 (by omega)

theorem Hangs.hang (hs : f.Hangs i path) (h : f.Nested) (hi : i < f.size) :
    (f.hang n p).Hangs i path := by
  have hpath : ∀ j < i, (f.hang n p).path j = f.path j := fun j hj => path_hang h n p (by omega)
  rcases hs with ⟨q, hq, hpar, hin⟩ | ⟨c, q, hun, hc, hq, hl, hinst, hpar, hin⟩
  · apply Hangs.declared q
    · exact (latest_hang h (by omega)).mpr hq
    · rw [Nested.parentOf_hang hi, hpar]
    · rw [inner_hang n p hi, hin]
  · apply Hangs.within c q
    · intro j hj
      rw [hpath j hj]
      exact hun j hj
    · exact hc
    · exact (latest_hang h (by omega)).mpr hq
    · intro d h1 h2 j hj
      rw [hpath j hj]
      exact hl d h1 h2 j hj
    · have hqs : q < f.size := lt_trans hq.1 hi
      rw [h.instanced_hang n p hqs, hinst]
    · rw [Nested.parentOf_hang hi, hpar]
    · rw [inner_hang n p hi, hin]

theorem isRead_hang {s : Section} (n : Node) (p : Nat) (hi : i < f.size) :
    ((f.hang n p).node i).IsRead s ↔ (f.node i).IsRead s := by
  rw [node_hang_of_lt n p hi]
  split <;> rfl

end Hang

end Forest

/-! ### One section after the other -/

structure Progress.Follows (p : Progress) (read : List Section) : Prop where
  root : p.scene.root = if p.scene.forest.size = 0 then none else some 0
  size : p.scene.forest.size = (nodeSections read).length
  nested : p.scene.forest.Nested
  rootInner : (p.scene.forest.node 0).inner = []
  unread : p.paths = [] ↔ p.scene.forest.size = 0
  paths : ∀ key q, Keyed.get? p.paths key = some q ↔
    p.scene.forest.Latest p.scene.forest.size key q
  nodes : ∀ i s, (nodeSections read)[i]? = some s → (p.scene.forest.node i).IsRead s
  top : ∀ s, (nodeSections read)[0]? = some s → Keyed.get? s.attributes "parent".toList = none
  hangs : ∀ i s, 0 < i → (nodeSections read)[i]? = some s →
    ∃ v, Keyed.get? s.attributes "parent".toList = some v ∧ p.scene.forest.Hangs i (unquote v)
  preamble : p.scene.preamble = read.takeWhile fun s => !s.isNode
  trailing : p.scene.trailing =
    (read.dropWhile fun s => !s.isNode).filter fun s => !s.isNode

namespace Progress

variable {p q : Progress} {read : List Section} {s : Section}

theorem follows_start : Follows {} [] where
  root := rfl
  size := rfl
  nested := sound_start.nested
  rootInner := rfl
  unread := by simp [Forest.size]
  paths key q := by simp [Keyed.get?, Forest.Latest, Forest.size]
  nodes i s h := by cases h
  top s h := by cases h
  hangs i s _ h := by cases h
  preamble := rfl
  trailing := rfl

theorem nodeSections_append (read : List Section) (s : Section) : nodeSections (read ++ [s]) =
    nodeSections read ++ if s.isNode then [s] else [] := by
  rw [nodeSections, List.filter_append, List.filter_cons, List.filter_nil]
  rfl

theorem Follows.exists_isNode (h : p.Follows read) (hp : p.paths ≠ []) :
    ∃ s ∈ read, s.isNode = true := by
  have hs : 0 < (nodeSections read).length := by
    rw [← h.size]
    exact Nat.pos_of_ne_zero fun h0 => hp (h.unread.mpr h0)
  obtain ⟨s, hs⟩ := List.exists_mem_of_length_pos hs
  exact ⟨s, List.mem_filter.mp hs⟩

theorem split_append (h : ∃ s ∈ read, s.isNode = true) (s : Section) :
    (read ++ [s]).takeWhile (fun s => !s.isNode) = (read.takeWhile fun s => !s.isNode) ∧
      (read ++ [s]).dropWhile (fun s => !s.isNode) = (read.dropWhile fun s => !s.isNode) ++ [s] := by
  obtain ⟨t, ht, hn⟩ := h
  have hne : read.dropWhile (fun s => !s.isNode) ≠ [] := fun he => by
    simpa [hn] using List.dropWhile_eq_nil_iff.mp he t ht
  have hd : (read ++ [s]).dropWhile (fun s => !s.isNode) =
      (read.dropWhile fun s => !s.isNode) ++ [s] := by
    rw [List.dropWhile_append, if_neg (by simpa using hne)]
  refine ⟨?_, hd⟩
  have ht := List.takeWhile_append_dropWhile (l := read ++ [s]) (p := fun s => !s.isNode)
  have hr := List.takeWhile_append_dropWhile (l := read) (p := fun s => !s.isNode)
  rw [hd, ← List.append_assoc] at ht
  exact List.append_cancel_right ((List.append_cancel_right ht).trans hr.symm)

theorem split_append_node (read : List Section) (hs : s.isNode = true) :
    (read ++ [s]).takeWhile (fun s => !s.isNode) = (read.takeWhile fun s => !s.isNode) ∧
      ((read ++ [s]).dropWhile fun s => !s.isNode).filter (fun s => !s.isNode) =
        (read.dropWhile fun s => !s.isNode).filter fun s => !s.isNode := by
  by_cases h : ∃ s ∈ read, s.isNode = true
  · obtain ⟨ht, hd⟩ := split_append h s
    refine ⟨ht, ?_⟩
    rw [hd, List.filter_append]
    simp [hs]
  · have hall : ∀ t ∈ read, (!t.isNode) = true := fun t ht => by
      simpa using fun hn => h ⟨t, ht, hn⟩
    rw [List.takeWhile_append_of_pos hall, List.dropWhile_append_of_pos hall,
      List.takeWhile_eq_self_iff.mpr hall, List.dropWhile_eq_nil_iff.mpr hall]
    simp [hs]

theorem Follows.withOthers (h : p.Follows read) (hs : s.isNode = false) {front behind : List Section}
    (hf : front = (read ++ [s]).takeWhile fun s => !s.isNode)
    (hb : behind = ((read ++ [s]).dropWhile fun s => !s.isNode).filter fun s => !s.isNode) :
    Follows { p with scene := { p.scene with preamble := front, trailing := behind } }
      (read ++ [s]) := by
  have hnodes : nodeSections (read ++ [s]) = nodeSections read := by
    simp [nodeSections_append, hs]
  exact ⟨h.root, hnodes ▸ h.size, h.nested, h.rootInner, h.unread, h.paths, hnodes ▸ h.nodes,
    hnodes ▸ h.top, hnodes ▸ h.hangs, hf, hb⟩

theorem Follows.front (h : p.Follows read) (hs : s.isNode = false) (hp : p.paths = []) :
    Follows { p with scene := { p.scene with preamble := p.scene.preamble ++ [s] } }
      (read ++ [s]) := by
  have hnone : nodeSections read = [] := by
    rw [← List.length_eq_zero_iff, ← h.size]
    exact h.unread.mp hp
  have hall : ∀ t ∈ read, (!t.isNode) = true := by
    simpa [nodeSections, List.filter_eq_nil_iff] using hnone
  apply h.withOthers hs
  · rw [h.preamble, List.takeWhile_append_of_pos hall, List.takeWhile_eq_self_iff.mpr hall]
    simp [hs]
  · rw [h.trailing, List.dropWhile_append_of_pos hall, List.dropWhile_eq_nil_iff.mpr hall]
    simp [hs]

theorem Follows.behind (h : p.Follows read) (hs : s.isNode = false) (hp : p.paths ≠ []) :
    Follows { p with scene := { p.scene with trailing := p.scene.trailing ++ [s] } }
      (read ++ [s]) := by
  obtain ⟨ht, hd⟩ := split_append (h.exists_isNode hp) s
  apply h.withOthers hs
  · rw [h.preamble, ht]
  · rw [h.trailing, hd, List.filter_append]
    simp [hs]

theorem Follows.getElem?_append (h : p.Follows read) (hs : s.isNode = true) {i : Nat} {u : Section}
    (hu : (nodeSections (read ++ [s]))[i]? = some u) :
    i < p.scene.forest.size ∧ (nodeSections read)[i]? = some u ∨
      i = p.scene.forest.size ∧ u = s := by
  rw [nodeSections_append, if_pos hs] at hu
  rw [h.size]
  rcases Nat.lt_trichotomy i (nodeSections read).length with hi | rfl | hi
  · rw [List.getElem?_append_left hi] at hu
    exact .inl ⟨hi, hu⟩
  · rw [List.getElem?_concat_length] at hu
    exact .inr ⟨rfl, (Option.some.inj hu).symm⟩
  · rw [List.getElem?_eq_none (by simpa using Nat.succ_le_of_lt hi)] at hu
    cases hu

theorem Follows.size_append (h : p.Follows read) (hs : s.isNode = true) :
    p.scene.forest.size + 1 = (nodeSections (read ++ [s])).length := by
  rw [nodeSections_append, if_pos hs, List.length_append, h.size]
  rfl

theorem latest_single {n : Node} (hn : n.parent = none) (key : Text) (q : Nat) :
    Keyed.get? [(['.'], 0)] key = some q ↔ (⟨[n]⟩ : Forest).Latest 1 key q := by
  have hpath : ∀ {q : Nat}, (⟨[n]⟩ : Forest).path q = ['.'] :=
    Forest.path_of_none (Forest.Nested.parentOf_single hn _)
  constructor
  · intro hq
    simp only [Keyed.get?] at hq
    split at hq
    · next hk =>
      obtain rfl := Option.some.inj hq
      exact ⟨Nat.one_pos, hpath.trans hk, fun y h1 h2 => by omega⟩
    · cases hq
  · rintro ⟨hq, hk, -⟩
    obtain rfl : q = 0 := by omega
    simp [Keyed.get?, hpath.symm.trans hk]

theorem Follows.placeRoot (h : p.Follows read) (hroot : p.scene.root = none) {n : Node}
    (hs : s.isNode = true) (hn : nodeOf? s = some n)
    (hp : Keyed.get? s.attributes "parent".toList = none) :
    (p.place n none).Follows (read ++ [s]) := by
  have hsize : p.scene.forest.size = 0 := by
    by_contra hne
    have hr := h.root
    rw [if_neg hne, hroot] at hr
    cases hr
  have hfirst : ∀ {i u}, (nodeSections (read ++ [s]))[i]? = some u → i = 0 ∧ u = s := by
    intro i u hu
    rcases h.getElem?_append hs hu with ⟨hi, -⟩ | ⟨rfl, rfl⟩
    · omega
    · exact ⟨hsize, rfl⟩
  obtain ⟨ht, hd⟩ := split_append_node read hs
  have hone := h.size_append hs
  rw [hsize] at hone
  obtain ⟨name, -, rfl⟩ := Option.map_eq_some_iff.mp hn
  rw [place_none hsize (h.unread.mpr hsize)]
  constructor
  · rfl
  · exact hone
  · exact .single rfl rfl
  · rfl
  · simp [Forest.size]
  · exact latest_single rfl
  · intro i u hu
    obtain ⟨rfl, rfl⟩ := hfirst hu
    exact hn
  · intro u hu
    obtain ⟨-, rfl⟩ := hfirst hu
    exact hp
  · intro i u hi hu
    obtain ⟨rfl, -⟩ := hfirst hu
    exact absurd hi (Nat.lt_irrefl 0)
  · rw [ht]
    exact h.preamble
  · rw [hd]
    exact h.trailing

theorem Follows.hangs_of_parentFor (h : p.Follows read) (n : Node) {path : Text} {q : Nat}
    {inner : Text} (hf : parentFor p.scene.forest p.paths path = some (q, inner)) :
    q < p.scene.forest.size ∧
      (p.scene.forest.hang { n with inner := inner } q).Hangs p.scene.forest.size path := by
  generalize hm : { n with inner := inner } = m
  have hnew : ∀ {q : Nat}, q < p.scene.forest.size →
      (p.scene.forest.hang m q).parentOf p.scene.forest.size = some q ∧
        ((p.scene.forest.hang m q).node p.scene.forest.size).inner = inner := fun hq => by
    refine ⟨Forest.Nested.parentOf_hang_size m hq, ?_⟩
    rw [Forest.node_hang_size m hq, ← hm]
  have hnone : ∀ {key : Text}, Keyed.get? p.paths key = none → ∀ j < p.scene.forest.size,
      (p.scene.forest.hang m q).path j ≠ key := by
    intro key hk j hj he
    rw [Forest.path_hang h.nested m q hj] at he
    obtain ⟨l, hl⟩ := Forest.exists_latest hj he
    rw [(h.paths _ _).mpr hl] at hk
    cases hk
  unfold parentFor at hf
  split at hf
  · next id hid =>
    obtain ⟨rfl, rfl⟩ := Prod.mk.inj (Option.some.inj hf)
    have hl := (h.paths _ _).mp hid
    obtain ⟨hp, hi⟩ := hnew hl.1
    exact ⟨hl.1, .declared _ ((Forest.latest_hang h.nested (Nat.le_refl _)).mpr hl) hp hi⟩
  · next hk =>
    obtain ⟨c, hc, hid, hl, hr, hinst⟩ := ancestorFrom_eq_some hf
    have hlatest := (h.paths _ _).mp hid
    obtain ⟨hp, hi⟩ := hnew hlatest.1
    have hpos := List.length_pos_iff.mpr (Text.splitOn_ne_nil '/' path)
    refine ⟨hlatest.1, .within c q (hnone hk) (by omega)
      ((Forest.latest_hang h.nested (Nat.le_refl _)).mpr hlatest)
      (fun d h1 h2 => hnone (hl d h1 (by omega))) ?_ hp (hi.trans hr)⟩
    rw [h.nested.instanced_hang m q hlatest.1, hinst]

theorem Follows.hang (h : p.Follows read) {n : Node} {raw : Text} {q : Nat} (hs : s.isNode = true)
    (hn : n.IsRead s) (hc : n.children = [])
    (hp : Keyed.get? s.attributes "parent".toList = some raw) (hq : q < p.scene.forest.size)
    (hh : (p.scene.forest.hang n q).Hangs p.scene.forest.size (unquote raw)) :
    Follows ⟨{ p.scene with forest := p.scene.forest.hang n q },
      Keyed.set p.paths ((p.scene.forest.hang n q).path p.scene.forest.size) p.scene.forest.size⟩
      (read ++ [s]) := by
  obtain ⟨ht, hd⟩ := split_append_node read hs
  have hpos : p.scene.forest.size ≠ 0 := by omega
  constructor
  · have hroot := h.root
    rw [if_neg hpos] at hroot
    simpa using hroot
  · rw [Forest.size_hang]
    exact h.size_append hs
  · exact h.nested.hang hc hq
  · rw [Forest.inner_hang n q (Nat.pos_of_ne_zero hpos)]
    exact h.rootInner
  · rw [Forest.size_hang]
    simp [Keyed.set_ne_nil]
  · intro key x
    rw [Keyed.get?_set, Forest.size_hang, Forest.latest_hang_size h.nested]
    split
    · rw [Option.some.injEq, eq_comm]
    · exact h.paths key x
  · intro i u hu
    rcases h.getElem?_append hs hu with ⟨hi, hu⟩ | ⟨rfl, rfl⟩
    · exact (Forest.isRead_hang n q hi).mpr (h.nodes i u hu)
    · rw [Forest.node_hang_size n hq]
      exact hn
  · intro u hu
    rcases h.getElem?_append hs hu with ⟨-, hu⟩ | ⟨hi, -⟩
    · exact h.top u hu
    · exact absurd hi.symm hpos
  · intro i u hi hu
    rcases h.getElem?_append hs hu with ⟨hlt, hu⟩ | ⟨rfl, rfl⟩
    · obtain ⟨v, hv, hh⟩ := h.hangs i u hi hu
      exact ⟨v, hv, hh.hang h.nested hlt⟩
    · exact ⟨raw, hp, hh⟩
  · rw [ht]
    exact h.preamble
  · rw [hd]
    exact h.trailing

theorem Follows.step (h : p.Follows read) (hq : p.step s = .ok q) : q.Follows (read ++ [s]) := by
  cases adds hq with
  | front tag unread => exact h.front (Section.isNode_eq_false.mpr tag) unread
  | behind tag started => exact h.behind (Section.isNode_eq_false.mpr tag) started
  | root tag node top first => exact h.placeRoot first (Section.isNode_iff.mpr tag) node top
  | below tag node parent found =>
    obtain ⟨name, -, rfl⟩ := Option.map_eq_some_iff.mp node
    obtain ⟨hq, hh⟩ := h.hangs_of_parentFor _ found
    exact h.hang (Section.isNode_iff.mpr tag) node rfl parent hq hh

theorem follows_foldlM {ss : List Section} (h : ss.foldlM Progress.step {} = .ok p) :
    p.Follows ss :=
  foldlM_induction [] follows_start (fun _ _ _ _ _ h hq => h.step hq) h

end Progress

/-! ### The scene that was read -/

structure Keeps (s : Scene) (sections : List Section) : Prop where
  root : s.root = some 0
  size : s.forest.size = (nodeSections sections).length
  first : ∃ u us, nodeSections sections = u :: us ∧
    Keyed.get? u.attributes "parent".toList = none ∧
    ∀ v ∈ us, Keyed.get? v.attributes "parent".toList ≠ none
  walk : ∃ ids, s.nodes = .ok ids ∧ ids.Perm (List.range s.forest.size)
  children : ∀ x, (s.forest.childrenOf x).Pairwise fun a b : Nat => a < b
  preamble : s.preamble = sections.takeWhile fun u => !u.isNode
  trailing : s.trailing = (sections.dropWhile fun u => !u.isNode).filter fun u => !u.isNode
  node : ∀ i u, (nodeSections sections)[i]? = some u → (s.forest.node i).IsRead u
  written : ∀ i u, (nodeSections sections)[i]? = some u → s.forest.sectionOf i =
    ⟨"node", (s.forest.node i).front (s.forest.parentPath i) ++ u.kept, u.properties⟩
  hangs : ∀ i u v, (nodeSections sections)[i]? = some u →
    Keyed.get? u.attributes "parent".toList = some v → s.forest.Hangs i (unquote v)
  parentPath : ∀ i u v, (nodeSections sections)[i]? = some u →
    Keyed.get? u.attributes "parent".toList = some v → Forest.IsParentPath (unquote v) →
    s.forest.parentPath i = some (unquote v)

namespace Progress.Follows

variable {p : Progress} {sections : List Section}

theorem walk_perm (h : p.Follows sections) (hs : 0 < p.scene.forest.size) :
    p.scene.forest.subtree 0 = .ok (p.scene.forest.walk 0) ∧
      (p.scene.forest.walk 0).Perm (List.range p.scene.forest.size) := by
  have ht := h.nested.isTree hs
  refine ⟨ht.subtree_eq, (List.perm_ext_iff_of_nodup (ht.nodup_walk .refl) List.nodup_range).mpr ?_⟩
  intro x
  rw [ht.mem_walk, List.mem_range]
  exact h.nested.reaches_iff hs

theorem children_lt (h : p.Follows sections) (x : Nat) :
    (p.scene.forest.childrenOf x).Pairwise fun a b : Nat => a < b := by
  by_cases hx : x < p.scene.forest.size
  · rw [h.nested.children x hx]
    exact List.pairwise_lt_range.filter _
  · have hnone : p.scene.forest.nodes[x]? = none :=
      List.getElem?_eq_none_iff.mpr (Nat.le_of_not_lt hx)
    rw [Forest.childrenOf, Forest.node, hnone]
    exact .nil

theorem recent (h : p.Follows sections) : p.scene.forest.Recent := by
  intro x q hq y hqy hyx he
  have hx : x < (nodeSections sections).length := by
    rw [← h.size]
    exact Forest.lt_size_of_parentOf hq
  obtain ⟨v, -, hh⟩ := h.hangs x _ (by omega) (List.getElem?_eq_getElem hx)
  have hlast : ∀ {path q'}, p.scene.forest.Latest x path q' →
      p.scene.forest.parentOf x = some q' → False := by
    rintro path q' ⟨-, hpath, hlast⟩ hq'
    obtain rfl : q = q' := Option.some.inj (hq.symm.trans hq')
    apply hlast y hqy hyx
    rw [← hpath, Forest.path, Forest.path, he]
  cases hh with
  | declared q' latest parent inner => exact hlast latest parent
  | within c q' undeclared short latest longest instanced parent inner => exact hlast latest parent

theorem first_alone (h : p.Follows sections) (hs : 0 < p.scene.forest.size) :
    ∃ u us, nodeSections sections = u :: us ∧ Keyed.get? u.attributes "parent".toList = none ∧
      ∀ v ∈ us, Keyed.get? v.attributes "parent".toList ≠ none := by
  cases hn : nodeSections sections with
  | nil =>
    rw [h.size, hn] at hs
    cases hs
  | cons u us =>
    refine ⟨u, us, rfl, h.top u (by rw [hn]; rfl), fun v hv he => ?_⟩
    obtain ⟨i, hi⟩ := List.mem_iff_getElem?.mp hv
    obtain ⟨w, hw, -⟩ := h.hangs (i + 1) v (Nat.succ_pos i) (by rw [hn]; exact hi)
    rw [he] at hw
    cases hw

theorem hangs_of_parent (h : p.Follows sections) {i : Nat} {u : Section} {v : Text}
    (hu : (nodeSections sections)[i]? = some u)
    (hv : Keyed.get? u.attributes "parent".toList = some v) :
    0 < i ∧ p.scene.forest.Hangs i (unquote v) := by
  have hi : 0 < i := by
    apply Nat.pos_of_ne_zero
    rintro rfl
    rw [h.top u hu] at hv
    cases hv
  obtain ⟨w, hw, hh⟩ := h.hangs i u hi hu
  obtain rfl : v = w := Option.some.inj (hv.symm.trans hw)
  exact ⟨hi, hh⟩

end Progress.Follows

theorem Progress.follows_of_read {t : Text} {s : Scene} (hs : Scene.read t = .ok s) :
    ∃ sections p, Section.readAll t = .ok sections ∧ Follows p sections ∧ p.scene.root = some 0 ∧
      0 < p.scene.forest.size ∧ s = { p.scene with declared := Keyed.keys p.paths } := by
  obtain ⟨sections, ht⟩ := readAll_of_read hs
  obtain ⟨p, hp, hroot, rfl⟩ := Progress.of_read ht hs
  have h : p.Follows sections := Progress.follows_foldlM hp
  have hpos : p.scene.forest.size ≠ 0 := fun h0 => hroot (by rw [h.root, if_pos h0])
  exact ⟨sections, p, ht, h, by rw [h.root, if_neg hpos], Nat.pos_of_ne_zero hpos, rfl⟩

/-- Reading a scene loses no section, makes no node twice and puts each one where it says. -/
theorem keeps_of_read {t : Text} {s : Scene} (hs : Scene.read t = .ok s) :
    ∃ sections, Section.readAll t = .ok sections ∧ s.Keeps sections := by
  obtain ⟨sections, p, ht, h, hroot, hpos, rfl⟩ := Progress.follows_of_read hs
  obtain ⟨hsub, hperm⟩ := h.walk_perm hpos
  refine ⟨sections, ht, hroot, h.size, h.first_alone hpos,
    ⟨_, ?_, hperm⟩, h.children_lt, h.preamble, h.trailing, h.nodes, fun i u hu => ?_,
    fun i u v hu hv => (h.hangs_of_parent hu hv).2, fun i u v hu hv hv' => ?_⟩
  · simp only [Scene.nodes, hroot, hsub]
  · have hm : u ∈ sections := (List.mem_filter.mp (List.mem_of_getElem? hu)).1
    exact Forest.sectionOf_of_isRead (h.nodes i u hu) (Section.draft_of_readAll ht hm).1.attributeKeys
  · obtain ⟨hi, hh⟩ := h.hangs_of_parent hu hv
    exact hh.parentPath hi h.nested.top hv'

theorem keeps_of_read_level : Scene.read (sectionsText level) = .ok levelScene ∧
    ∃ sections, Section.readAll (sectionsText level) = .ok sections ∧ levelScene.Keeps sections := by
  have ht : Section.readAll (sectionsText level) = .ok level :=
    Section.readAll_sectionsText (by decide +kernel)
  have hs : Scene.read (sectionsText level) = .ok levelScene := by
    rw [Scene.read, ht]
    rfl
  exact ⟨hs, keeps_of_read hs⟩

end Coursework.Scene
