import Coursework.Proofs.Scene.Nested
import Coursework.Proofs.Scene.Rereading

/-!
A scene that was read from a text can be written, and its written form says the same.
-/

namespace Coursework.Scene

open Text

structure Section.Plain (s : Section) : Prop where
  name : ∀ v, Keyed.get? s.attributes "name".toList = some v → Path.IsPart (unquote v)
  parent : ∀ v, Keyed.get? s.attributes "parent".toList = some v → unquote v = ['.'] ∨
    ∃ names, names ≠ [] ∧ Parts names ∧ unquote v = Text.join ['/'] names

instance (s : Section) : Decidable s.Plain :=
  decidable_of_iff ((∀ v ∈ Keyed.get? s.attributes "name".toList, Path.IsPart (unquote v)) ∧
      ∀ v ∈ Keyed.get? s.attributes "parent".toList, unquote v = ['.'] ∨
        ∀ w ∈ Text.splitOn '/' (unquote v), Path.IsPart w)
    ⟨fun h => ⟨h.1, fun v hv => (h.2 v hv).imp_right fun hp =>
        ⟨_, Text.splitOn_ne_nil _ _, hp, (Text.join_splitOn _ _).symm⟩⟩,
      fun h => ⟨h.name, fun v hv => (h.parent v hv).imp_right fun ⟨names, hne, hn, hj⟩ => by
        rw [hj, splitOn_join hne fun w hw => (hn w hw).2.2]
        exact hn⟩⟩

theorem Section.Plain.pathText {s : Section} (h : s.Plain) {v : Text}
    (hv : Keyed.get? s.attributes "parent".toList = some v) :
    ∃ names, Parts names ∧ unquote v = Forest.pathText names := by
  rcases h.parent v hv with hd | ⟨names, hne, hn, hj⟩
  · exact ⟨[], parts_nil, hd⟩
  · exact ⟨names, hn, by rw [hj, Forest.pathText_of_ne_nil hn hne]⟩

structure Node.Legible (n : Node) : Prop where
  printable : n.Printable
  inOrder : n.InOrder
  name : Path.IsPart n.name
  innerNames : Parts n.innerNames

theorem Node.legible_of_nodeOf? {s : Section} {n : Node} (hs : s.WellFormed) (hp : s.Plain)
    (h : nodeOf? s = some n) : n.Legible ∧ n.inner = [] ∧ n.parent = none ∧ n.children = [] := by
  have ho := ownKeys_of_nodeOf? h
  have hi := inOrder_of_nodeOf? hs.attributeKeys h
  obtain ⟨name, hname, rfl⟩ := Option.map_eq_some_iff.mp h
  have hu : ∀ k v, Keyed.get? s.attributes k = some v → Unbroken v := fun k v hv =>
    (hs.attributes _ (Keyed.mem_of_get? hv)).2.1
  have hget : ∀ k d, Unbroken d → Unbroken ((Keyed.get? s.attributes k).getD d) := by
    intro k d hd
    cases hv : Keyed.get? s.attributes k with
    | none => exact hd
    | some v => exact hu k v hv
  refine ⟨⟨⟨?_, ?_, ?_, unbroken_nil, ho, ?_, ?_, hs.propertyKeys, hs.properties⟩, hi, hp.name _ hname,
    parts_nil⟩, rfl, rfl, rfl⟩
  · exact unbroken_unquote (hu _ _ hname)
  · exact unbroken_unquote (hget _ _ (by simp [isLineBreak]))
  · exact fun g hg => unbroken_of_mem_readStrings (hget _ _ (by simp [isLineBreak])) hg
  · exact (List.filter_sublist.map Prod.fst).nodup hs.attributeKeys
  · exact fun a ha => hs.attributes a (List.mem_filter.mp ha).1

theorem Node.Legible.withPlace {n : Node} (h : n.Legible) (parent : Option NodeId)
    (children : List NodeId) : { n with parent := parent, children := children }.Legible :=
  ⟨⟨h.printable.name, h.printable.type, h.printable.groups, h.printable.inner, h.printable.ownKeys,
    h.printable.attributeKeys, h.printable.attributes, h.printable.propertyKeys,
    h.printable.properties⟩, ⟨h.inOrder.nodup, h.inOrder.keys⟩, h.name, h.innerNames⟩

theorem Node.Legible.withInner {n : Node} (h : n.Legible) {names : List Text} (hn : Parts names)
    (hu : ∀ w ∈ names, Unbroken w) : { n with inner := Text.join ['/'] names }.Legible := by
  have hi : { n with inner := Text.join ['/'] names }.innerNames = names :=
    Node.innerNames_join hn rfl
  exact ⟨⟨h.printable.name, h.printable.type, h.printable.groups,
    unbroken_join (by simp [isLineBreak]) hu, h.printable.ownKeys,
    h.printable.attributeKeys, h.printable.attributes, h.printable.propertyKeys,
    h.printable.properties⟩, ⟨h.inOrder.nodup, h.inOrder.keys⟩, h.name,
    by rw [hi]; exact hn⟩

structure Progress.Sound (p : Progress) : Prop where
  root : p.scene.root = if p.scene.forest.size = 0 then none else some 0
  unread : p.scene.forest.size = 0 → p.paths = []
  nested : p.scene.forest.Nested
  rootInner : (p.scene.forest.node 0).inner = []
  legible : ∀ x < p.scene.forest.size, (p.scene.forest.node x).Legible
  found : ∀ key x, Keyed.get? p.paths key = some x →
    x < p.scene.forest.size ∧ p.scene.forest.path x = key
  known : ∀ x < p.scene.forest.size, p.scene.forest.path x ∈ Keyed.keys p.paths
  foreseen : p.scene.forest.Foreseen
  instanced : ∀ x q, p.scene.forest.parentOf x = some q → (p.scene.forest.node x).inner ≠ [] →
    p.scene.forest.instanced q = true
  others : ∀ t ∈ p.scene.preamble ++ p.scene.trailing, t.tag ≠ "node".toList ∧ t.WellFormed

namespace Progress

theorem sound_start : Sound {} where
  root := rfl
  unread _ := rfl
  nested :=
    { grown := fun x p h => by cases h
      top := rfl
      below := fun x hx => by cases hx
      children := fun x hx => by cases hx }
  rootInner := rfl
  legible x hx := by cases hx
  found key x h := by cases h
  known x hx := by cases hx
  foreseen x p h := by cases h
  instanced x q h := by cases h
  others t ht := by cases ht

variable {p q : Progress} {s : Section}

inductive Adds (p : Progress) (s : Section) : Progress → Prop
  | front (tag : s.tag ≠ "node".toList) (unread : p.paths = []) :
    Adds p s { p with scene := { p.scene with preamble := p.scene.preamble ++ [s] } }
  | behind (tag : s.tag ≠ "node".toList) (read : p.paths ≠ []) :
    Adds p s { p with scene := { p.scene with trailing := p.scene.trailing ++ [s] } }
  | root {n : Node} (tag : s.tag = "node".toList) (node : nodeOf? s = some n)
    (top : Keyed.get? s.attributes "parent".toList = none) (first : p.scene.root = none) :
    Adds p s (p.place n none)
  | below {n : Node} {raw inner : Text} {q : NodeId} (tag : s.tag = "node".toList)
    (node : nodeOf? s = some n) (parent : Keyed.get? s.attributes "parent".toList = some raw)
    (found : parentFor p.scene.forest p.paths (unquote raw) = some (q, inner)) :
    Adds p s (p.place n (some (q, inner)))

theorem adds (h : p.step s = .ok q) : p.Adds s q := by
  by_cases ht : s.tag = "node".toList
  · rw [Progress.step, if_neg (not_not_intro ht)] at h
    cases hn : nodeOf? s with
    | none => simp [hn] at h
    | some n =>
      simp only [hn] at h
      cases hraw : Keyed.get? s.attributes "parent".toList with
      | none =>
        cases hroot : p.scene.root with
        | none =>
          simp only [hraw, hroot] at h
          obtain rfl := Except.ok.inj h
          exact .root ht hn hraw hroot
        | some r =>
          simp only [hraw, hroot] at h
          cases h
      | some raw =>
        cases hroot : p.scene.root with
        | none =>
          simp only [hraw, hroot] at h
          cases h
        | some r =>
          simp only [hraw, hroot] at h
          cases hfor : parentFor p.scene.forest p.paths (unquote raw) with
          | none => simp [hfor] at h
          | some below =>
            simp only [hfor] at h
            obtain rfl := Except.ok.inj h
            exact .below ht hn hraw hfor
  · rw [Progress.step, if_pos ht] at h
    obtain rfl := Except.ok.inj h
    split
    · next hp => exact .front ht hp
    · next hp => exact .behind ht hp

theorem foldlM_induction {P : Progress → List Section → Prop} (read : List Section)
    {ss : List Section} (start : P p read)
    (step : ∀ p q read, ∀ s ∈ ss, P p read → p.step s = .ok q → P q (read ++ [s]))
    (h : ss.foldlM Progress.step p = .ok q) : P q (read ++ ss) := by
  induction ss generalizing p read with
  | nil =>
    obtain rfl := Except.ok.inj h
    rwa [List.append_nil]
  | cons s ss ih =>
    rw [List.foldlM_cons] at h
    cases hstep : p.step s with
    | error e =>
      rw [hstep] at h
      cases h
    | ok p' =>
      rw [hstep] at h
      rw [List.append_cons]
      exact ih _ (step p p' read s List.mem_cons_self start hstep)
        (fun p q read t ht => step p q read t (List.mem_cons_of_mem _ ht)) h

theorem Sound.withOthers (h : p.Sound) {front behind : List Section}
    (ho : ∀ t ∈ front ++ behind, t.tag ≠ "node".toList ∧ t.WellFormed) :
    Sound { p with scene := { p.scene with preamble := front, trailing := behind } } :=
  ⟨h.root, h.unread, h.nested, h.rootInner, h.legible, h.found, h.known, h.foreseen, h.instanced, ho⟩

theorem place_none (hs : p.scene.forest.size = 0) (hp : p.paths = []) (n : Node) : p.place n none =
    ⟨{ p.scene with forest := ⟨[n]⟩, root := some 0 }, [(['.'], 0)]⟩ := by
  have hforest : p.scene.forest = {} := Forest.ext_node hs fun i hi => by omega
  rw [place, hp, hforest]
  rfl

theorem Sound.placeRoot (h : p.Sound) (hr : p.scene.root = none) {n : Node} (hn : n.Legible)
    (hi : n.inner = []) (hp : n.parent = none) (hc : n.children = []) :
    (p.place n none).Sound := by
  have hsize : p.scene.forest.size = 0 := by
    have hroot := h.root
    rw [hr] at hroot
    by_contra hne
    rw [if_neg hne] at hroot
    cases hroot
  have hpaths := h.unread hsize
  have hplace := place_none hsize hpaths n
  have hnone := Forest.Nested.parentOf_single hp
  have hpath : (⟨[n]⟩ : Forest).path 0 = ['.'] := by
    rw [Forest.path, Forest.segments_of_none (hnone 0)]
    rfl
  rw [hplace]
  refine ⟨rfl, fun hs => (Nat.one_ne_zero hs).elim, .single hp hc, hi, fun x hx => ?_,
    fun key x hx => ?_, fun x hx => ?_, fun x q hq => ?_, fun x q hq => ?_, h.others⟩
  · obtain rfl := Forest.Nested.eq_zero_of_single hx
    exact hn
  · simp only [Keyed.get?] at hx
    split at hx
    · next hk =>
      obtain rfl := Option.some.inj hx
      exact ⟨Nat.zero_lt_one, hpath.trans hk⟩
    · cases hx
  · obtain rfl := Forest.Nested.eq_zero_of_single hx
    rw [hpath]
    simp
  · simp [hnone x] at hq
  · simp [hnone x] at hq

theorem Sound.parts (h : p.Sound) {x : Nat} (hx : x < p.scene.forest.size) :
    Parts (p.scene.forest.segments x) := by
  induction x using Nat.strongRecOn with
  | ind x ih =>
    cases hp : p.scene.forest.parentOf x with
    | none =>
      rw [Forest.segments_of_none hp]
      exact parts_nil
    | some q =>
      have hl := h.legible x hx
      rw [h.nested.segments_eq hp, Node.steps_eq]
      exact (ih q (h.nested.grown x q hp) (h.nested.parent_lt hp)).append
        (hl.innerNames.append (parts_singleton hl.name))

theorem Sound.hang (h : p.Sound) {n : Node} (hn : n.Legible) (hc : n.children = []) {q : Nat}
    (hq : q < p.scene.forest.size)
    (hnear : ∀ y < p.scene.forest.size, ∀ j, 0 < j → j ≤ n.innerNames.length →
      p.scene.forest.segments y ≠ p.scene.forest.segments q ++ n.innerNames.take j)
    (hinst : n.inner ≠ [] → p.scene.forest.instanced q = true) :
    Sound ⟨{ p.scene with forest := p.scene.forest.hang n q },
      Keyed.set p.paths ((p.scene.forest.hang n q).path p.scene.forest.size)
        p.scene.forest.size⟩ := by
  have hold : ∀ x : Nat, x < p.scene.forest.size →
      ((p.scene.forest.hang n q).node x).inner = (p.scene.forest.node x).inner := fun x hx => by
    rw [Forest.node_hang_of_lt n q hx]
    split <;> rfl
  have hpath : ∀ x : Nat, x < p.scene.forest.size →
      (p.scene.forest.hang n q).path x = p.scene.forest.path x := fun x hx => by
    rw [Forest.path, h.nested.segments_hang n q hx, Forest.path]
  have hpos : p.scene.forest.size ≠ 0 := by omega
  refine ⟨?_, fun hs => ?_, h.nested.hang hc hq, ?_, fun x hx => ?_, fun key x hx => ?_,
    fun x hx => ?_, h.foreseen.hang h.nested hq hnear, fun x y hxy hi => ?_, h.others⟩
  · have hroot := h.root
    rw [if_neg hpos] at hroot
    simpa using hroot
  · rw [Forest.size_hang] at hs
    omega
  · rw [hold 0 (by omega)]
    exact h.rootInner
  · rw [Forest.size_hang] at hx
    by_cases he : x = p.scene.forest.size
    · rw [he, Forest.node_hang_size n hq]
      exact hn.withPlace (some q) n.children
    · have hxf : x < p.scene.forest.size := by omega
      rw [Forest.node_hang_of_lt n q hxf]
      split
      · exact (h.legible x hxf).withPlace (p.scene.forest.node x).parent _
      · exact h.legible x hxf
  · rw [Keyed.get?_set] at hx
    rw [Forest.size_hang]
    split at hx
    · next hk =>
      obtain rfl := Option.some.inj hx
      exact ⟨Nat.lt_succ_self _, hk.symm⟩
    · obtain ⟨hxf, hk⟩ := h.found key x hx
      exact ⟨Nat.lt_succ_of_lt hxf, (hpath x hxf).trans hk⟩
  · rw [Forest.size_hang] at hx
    by_cases he : x = p.scene.forest.size
    · rw [he]
      exact Keyed.mem_keys_set.mpr (.inr rfl)
    · have hxf : x < p.scene.forest.size := by omega
      rw [hpath x hxf]
      exact Keyed.mem_keys_set.mpr (.inl (h.known x hxf))
  · rcases Forest.Nested.parentOf_hang_cases hq hxy with ⟨rfl, rfl⟩ | ⟨hxf, hxy⟩
    · rw [Forest.node_hang_size n hq] at hi
      rw [h.nested.instanced_hang n y hq]
      exact hinst hi
    · rw [hold x hxf] at hi
      rw [h.nested.instanced_hang n q (h.nested.parent_lt hxy)]
      exact h.instanced x y hxy hi

theorem Sound.placeBelow (h : p.Sound) {n : Node} (hn : n.Legible) (hc : n.children = [])
    {names : List Text} (hnames : Parts names) (hu : ∀ w ∈ names, Unbroken w) {q : NodeId}
    {inner : Text} (hfor : parentFor p.scene.forest p.paths (Forest.pathText names) = some (q, inner)) :
    (p.place n (some (q, inner))).Sound := by
  obtain ⟨b, r, hnear, rfl, hinst⟩ := (parentFor_eq_some_iff hnames).mp hfor
  have hb : Parts b := fun w hw => hnames w (by simp [hnear.names, hw])
  have hr : Parts r := fun w hw => hnames w (by simp [hnear.names, hw])
  have hru : ∀ w ∈ r, Unbroken w := fun w hw => hu w (by simp [hnear.names, hw])
  obtain ⟨hq, hqp⟩ := h.found _ _ hnear.node
  have hqb : p.scene.forest.segments q = b := Forest.pathText_inj (h.parts hq) hb hqp
  have hinner : { n with inner := Text.join ['/'] r }.innerNames = r :=
    Node.innerNames_join hr rfl
  refine h.hang (hn.withInner hr hru) hc hq (fun y hy j hj hjl hs => ?_) fun hi => hinst fun hrn => ?_
  · rw [hinner] at hjl hs
    have hk := h.known y hy
    rw [Forest.path, hs, hqb] at hk
    exact Keyed.get?_eq_none_iff.mp (hnear.longest j hj hjl) hk
  · rw [hrn] at hi
    exact hi rfl

theorem unbroken_of_pathText {names : List Text} (hn : Parts names)
    (h : Unbroken (Forest.pathText names)) : ∀ w ∈ names, Unbroken w := by
  intro w hw c hc
  have hne : names ≠ [] := List.ne_nil_of_mem hw
  rw [← Forest.splitOn_pathText hn hne] at hw
  exact h c (mem_of_mem_splitOn hw hc)

theorem Sound.step (h : p.Sound) (hs : s.WellFormed) (hp : s.tag = "node".toList → s.Plain)
    (hq : p.step s = .ok q) : q.Sound := by
  cases adds hq with
  | front tag _ =>
    apply h.withOthers
    intro t ht
    simp only [List.mem_append, List.mem_singleton] at ht
    rcases ht with (ht | rfl) | ht
    · exact h.others t (List.mem_append_left _ ht)
    · exact ⟨tag, hs⟩
    · exact h.others t (List.mem_append_right _ ht)
  | behind tag _ =>
    apply h.withOthers
    intro t ht
    simp only [List.mem_append, List.mem_singleton] at ht
    rcases ht with ht | ht | rfl
    · exact h.others t (List.mem_append_left _ ht)
    · exact h.others t (List.mem_append_right _ ht)
    · exact ⟨tag, hs⟩
  | root tag node _ first =>
    obtain ⟨hl, hi, hparent, hc⟩ := Node.legible_of_nodeOf? hs (hp tag) node
    exact h.placeRoot first hl hi hparent hc
  | below tag node parent found =>
    obtain ⟨hl, -, -, hc⟩ := Node.legible_of_nodeOf? hs (hp tag) node
    obtain ⟨names, hnames, hpath⟩ := (hp tag).pathText parent
    have hu := unbroken_unquote (hs.attributes _ (Keyed.mem_of_get? parent)).2.1
    rw [hpath] at found hu
    exact h.placeBelow hl hc hnames (unbroken_of_pathText hnames hu) found

theorem sound_foldlM {ss : List Section} (h : p.Sound) (hs : ∀ s ∈ ss, s.WellFormed)
    (hp : ∀ s ∈ ss, s.tag = "node".toList → s.Plain) (hq : ss.foldlM Progress.step p = .ok q) :
    q.Sound := by
  refine foldlM_induction (P := fun p _ => p.Sound) [] h (fun p q _ s hm h hq => ?_) hq
  exact h.step (hs s hm) (hp s hm) hq

/-! ### The scene that was read -/

theorem Sound.resolves (h : p.Sound) (hs : 0 < p.scene.forest.size)
    (hr : p.scene.forest.Recent) : p.scene.forest.Resolves 0 := by
  have hlt : ∀ x, p.scene.forest.Reaches 0 x → x < p.scene.forest.size := fun x hx =>
    (h.nested.isTree hs).lt_size hx
  constructor
  · exact h.rootInner
  · exact fun x hx => (h.legible x (hlt x hx)).name
  · exact fun x hx => (h.legible x (hlt x hx)).innerNames
  · exact fun pre q x post hw hq => h.nested.last hw hq
  · exact fun pre q x post hw hq y hy j hj hjl => h.nested.nearest h.foreseen hr hw hq hy hj hjl
  · exact fun x q _ hq hi => h.instanced x q hq hi

theorem Sound.printable_of_recent (h : p.Sound) (hs : 0 < p.scene.forest.size)
    (hr : p.scene.forest.Recent) (declared : List Text) :
    { p.scene with declared := declared }.Printable 0 where
  root := by
    have hroot := h.root
    rwa [if_neg (by omega)] at hroot
  tree := h.nested.isTree hs
  resolves := h.resolves hs hr
  nodes x hx := (h.legible x ((h.nested.isTree hs).lt_size hx)).printable
  others := h.others

theorem Sound.printable (h : p.Sound) (hs : 0 < p.scene.forest.size)
    (hd : p.scene.forest.PathsDiffer) (declared : List Text) :
    { p.scene with declared := declared }.Printable 0 :=
  h.printable_of_recent hs hd.recent declared

theorem Sound.mem_keys_paths (h : p.Sound) {key : Text} : key ∈ Keyed.keys p.paths ↔
    ∃ x < p.scene.forest.size, p.scene.forest.path x = key := by
  constructor
  · intro hk
    cases hg : Keyed.get? p.paths key with
    | none => exact absurd hk (Keyed.get?_eq_none_iff.mp hg)
    | some x => exact ⟨x, h.found key x hg⟩
  · rintro ⟨x, hx, rfl⟩
    exact h.known x hx

theorem of_read {t : Text} {sections : List Section} {s : Scene}
    (ht : Section.readAll t = .ok sections) (hs : Scene.read t = .ok s) :
    ∃ p : Progress, sections.foldlM Progress.step {} = .ok p ∧ p.scene.root ≠ none ∧
      s = { p.scene with declared := Keyed.keys p.paths } := by
  rw [Scene.read, ht] at hs
  cases hp : sections.foldlM Progress.step {} with
  | error e =>
    simp only [ofSections, hp, bind, Except.bind] at hs
    cases hs
  | ok p =>
    cases hroot : p.scene.root with
    | none =>
      simp only [ofSections, hp, bind, Except.bind, hroot] at hs
      cases hs
    | some r =>
      simp only [ofSections, hp, bind, Except.bind, hroot] at hs
      obtain rfl := Except.ok.inj hs
      exact ⟨p, rfl, by simp [hroot], by rw [← hroot]⟩

end Progress

theorem readAll_of_read {t : Text} {s : Scene} (h : Scene.read t = .ok s) :
    ∃ sections, Section.readAll t = .ok sections := by
  cases ht : Section.readAll t with
  | error e =>
    rw [Scene.read, ht] at h
    cases h
  | ok sections => exact ⟨sections, rfl⟩

/-- A scene that was read is written as a text that is read as the same scene, when all paths of
its nodes differ and no header value is cut. Nodes may change their numbers, nothing else. -/
theorem stable_of_read {t : Text} {sections : List Section} {s : Scene}
    (ht : Section.readAll t = .ok sections) (hs : Scene.read t = .ok s)
    (hplain : ∀ u ∈ sections, u.tag = "node".toList → u.Plain)
    (hpaths : ∀ x y : Nat, x < s.forest.size → y < s.forest.size →
      s.forest.path x = s.forest.path y → x = y)
    (hbalanced : ∀ u ∈ sections, ∀ a ∈ u.attributes, balanced a.2 = true) :
    ∃ t' s', s.text = .ok t' ∧ Scene.read t' = .ok s' ∧ s'.preamble = s.preamble ∧
      s'.trailing = s.trailing ∧ (∀ p, p ∈ s'.declared ↔ p ∈ s.declared) ∧
      s.root = some 0 ∧ s'.root = some 0 ∧ s.forest.SameTree Eq 0 s'.forest 0 ∧
      s'.text = .ok t' := by
  obtain ⟨p, hp, hroot, rfl⟩ := Progress.of_read ht hs
  have hsound : p.Sound := Progress.sound_foldlM Progress.sound_start
    (fun u hu => Section.wellFormed_of_readAll ht hu (hbalanced u hu)) hplain hp
  -- without a node there would be no root
  have hsize : 0 < p.scene.forest.size := by
    by_contra hn
    exact hroot (by rw [hsound.root, if_pos (by omega)])
  have hdiffer : p.scene.forest.PathsDiffer := fun x y hx hy he =>
    hpaths x y hx hy (congrArg Forest.pathText he)
  have hprint := hsound.printable hsize hdiffer (Keyed.keys p.paths)
  refine ⟨_, _, hprint.text_eq, hprint.read_text, rfl, rfl, fun key => ?_, hprint.root, rfl, ?_,
    hprint.text_reread.trans hprint.text_eq⟩
  · rw [hprint.mem_declared_reread]
    simp only [hsound.mem_keys_paths, hsound.nested.reaches_iff hsize]
  · exact hprint.tree.sameTree_copy fun x hx =>
      (hsound.legible x (hprint.tree.lt_size hx)).inOrder.reread_attributes

def level : List Section := [
  ⟨"gd_scene", [("format", "3")], []⟩,
  ⟨"node", [("name", quote "Level")], [("text", "[\n\"a b\", 1\n]")]⟩,
  ⟨"node", [("name", quote "Player"), ("parent", quote "."), ("instance", "ExtResource(\"1 2\")")], []⟩,
  ⟨"node", [("name", quote "Door"), ("parent", quote ".")], []⟩,
  ⟨"node", [("name", quote "Hat"), ("parent", quote "Player/Body/Head")], []⟩]

def levelScene : Scene :=
  match ofSections level with
  | .ok s => s
  | .error _ => {}

theorem stable_of_read_level : ∃ t' s', levelScene.text = .ok t' ∧ Scene.read t' = .ok s' ∧
    s'.preamble = levelScene.preamble ∧ s'.trailing = levelScene.trailing ∧
    (∀ p, p ∈ s'.declared ↔ p ∈ levelScene.declared) ∧ levelScene.root = some 0 ∧
    s'.root = some 0 ∧ levelScene.forest.SameTree Eq 0 s'.forest 0 ∧ s'.text = .ok t' := by
  have ht : Section.readAll (sectionsText level) = .ok level :=
    Section.readAll_sectionsText (by decide +kernel)
  have hs : Scene.read (sectionsText level) = .ok levelScene := by
    rw [Scene.read, ht]
    rfl
  have hd : ∀ x < levelScene.forest.size, ∀ y < levelScene.forest.size,
      levelScene.forest.path x = levelScene.forest.path y → x = y := by decide +kernel
  exact stable_of_read ht hs (by decide +kernel) (fun x y hx hy => hd x hx y hy) (by decide +kernel)

end Coursework.Scene
