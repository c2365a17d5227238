import Coursework.Proofs.Scene.Copy
import Coursework.Proofs.Scene.PathText

/-!
Trees that grow one node at a time: the store has no nodes but theirs, parents come first, and
siblings stand in the order in which they were added.
-/

namespace Coursework.Scene.Forest

variable {f : Forest}

structure Nested (f : Forest) : Prop where
  grown : f.Grown
  top : f.parentOf 0 = none
  below : ∀ x < f.size, x ≠ 0 → ∃ p, f.parentOf x = some p
  children : ∀ x < f.size, f.childrenOf x = (List.range f.size).filter fun y => f.parentOf y = some x

instance (f : Forest) : Decidable f.Nested :=
  decidable_of_iff ((∀ x < f.size, ∀ p ∈ f.parentOf x, p < x) ∧ f.parentOf 0 = none ∧
      (∀ x < f.size, x ≠ 0 → (f.parentOf x).isSome) ∧
      ∀ x < f.size, f.childrenOf x = (List.range f.size).filter fun y => f.parentOf y = some x)
    ⟨fun ⟨h1, h2, h3, h4⟩ => ⟨fun x p hp => h1 x (lt_size_of_parentOf hp) p hp, h2,
        fun x hx h0 => Option.isSome_iff_exists.mp (h3 x hx h0), h4⟩,
      fun h => ⟨fun x _ p hp => h.grown x p hp, h.top,
        fun x hx h0 => Option.isSome_iff_exists.mpr (h.below x hx h0), h.children⟩⟩

namespace Nested

theorem exists_height (h : f.Nested) {x : Nat} (hx : x < f.size) : ∃ n < f.size, f.Height n x := by
  obtain ⟨n, hn, hh⟩ := h.grown.exists_height x
  exact ⟨n, by omega, hh⟩

theorem segments_eq (h : f.Nested) {x p : NodeId} (hp : f.parentOf x = some p) :
    f.segments x = f.segments p ++ (f.node x).steps := by
  obtain ⟨n, hn, hh⟩ := h.exists_height (lt_size_of_parentOf hp)
  exact segments_of_height hh hn hp

theorem parent_lt (h : f.Nested) {x p : Nat} (hp : f.parentOf x = some p) : p < f.size := by
  have h1 := h.grown x p hp
  have h2 : x < f.size := lt_size_of_parentOf hp
  omega

theorem isTree (h : f.Nested) (hs : 0 < f.size) : f.IsTree 0 := by
  have hlt : ∀ x : Nat, f.Reaches 0 x → x < f.size := by
    intro x hx
    induction hx with
    | refl => exact hs
    | @tail p c _ hc ih =>
      rw [Lists, h.children p ih, List.mem_filter] at hc
      exact List.mem_range.mp hc.1
  refine ⟨hs, h.top, fun x hx => ?_, fun x c hx hc => ?_⟩
  · rw [h.children x (hlt x hx)]
    exact List.nodup_range.filter _
  · rw [h.children x (hlt x hx), List.mem_filter] at hc
    simpa using hc.2

theorem reaches (h : f.Nested) {x : Nat} (hx : x < f.size) : f.Reaches 0 x := by
  induction x using Nat.strongRecOn with
  | ind x ih =>
    by_cases h0 : x = 0
    · exact h0 ▸ .refl
    · obtain ⟨(p : Nat), hp⟩ := h.below x hx h0
      have hlt : p < x := h.grown x p hp
      have hps : p < f.size := by omega
      apply (ih p hlt hps).tail
      rw [Lists, h.children p hps, List.mem_filter]
      exact ⟨List.mem_range.mpr hx, by simpa using hp⟩

theorem reaches_iff (h : f.Nested) (hs : 0 < f.size) {x : NodeId} : f.Reaches 0 x ↔ x < f.size :=
  ⟨fun hx => (h.isTree hs).lt_size hx, h.reaches⟩

theorem parentOf_single {n : Node} (hp : n.parent = none) (x : NodeId) :
    (⟨[n]⟩ : Forest).parentOf x = none := by
  cases x with
  | zero => exact hp
  | succ x => rfl

theorem eq_zero_of_single {n : Node} {x : Nat} (hx : x < (⟨[n]⟩ : Forest).size) : x = 0 :=
  Nat.lt_one_iff.mp hx

theorem single {n : Node} (hp : n.parent = none) (hc : n.children = []) :
    (⟨[n]⟩ : Forest).Nested where
  grown x q hq := by
    rw [parentOf_single hp] at hq
    cases hq
  top := hp
  below x hx h0 := absurd (eq_zero_of_single hx) h0
  children x hx := by
    obtain rfl := eq_zero_of_single hx
    rw [List.filter_eq_nil_iff.mpr fun y _ => by simp [parentOf_single hp y]]
    exact hc

theorem parentOf_hang {n : Node} {p : NodeId} {x : NodeId} (hx : x < f.size) :
    (f.hang n p).parentOf x = f.parentOf x := by
  rw [parentOf, node_hang_of_lt n p hx]
  split <;> rfl

theorem parentOf_hang_size (n : Node) {p : NodeId} (hp : p < f.size) :
    (f.hang n p).parentOf f.size = some p := by
  rw [parentOf, node_hang_size n hp]

theorem parentOf_hang_cases {n : Node} {p x y : Nat} (hp : p < f.size)
    (h : (f.hang n p).parentOf x = some y) :
    x = f.size ∧ y = p ∨ x < f.size ∧ f.parentOf x = some y := by
  have hx : x < (f.hang n p).size := lt_size_of_parentOf h
  rw [size_hang] at hx
  rcases Nat.lt_or_eq_of_le (Nat.le_of_lt_succ hx) with hx | rfl
  · rw [parentOf_hang hx] at h
    exact .inr ⟨hx, h⟩
  · rw [parentOf_hang_size n hp] at h
    exact .inl ⟨rfl, (Option.some.inj h).symm⟩

theorem carries_hang (h : f.Nested) (n : Node) (p : NodeId) :
    Carries id (· < f.size) f (f.hang n p) where
  up x q _ hq := h.parent_lt hq
  parent x hx := by
    rw [id, parentOf_hang hx]
    cases f.parentOf x <;> rfl
  steps x hx := by
    rw [id, node_hang_of_lt n p hx]
    split <;> rfl
  isInstance x hx := by
    rw [id, node_hang_of_lt n p hx]
    split <;> rfl

theorem segments_hang (h : f.Nested) (n : Node) (p : NodeId) {x : NodeId} (hx : x < f.size) :
    (f.hang n p).segments x = f.segments x := by
  obtain ⟨k, hk, hh⟩ := h.exists_height hx
  exact (h.carries_hang n p).segments hx hh hk (by rw [size_hang]; omega)

theorem instanced_hang (h : f.Nested) (n : Node) (p : NodeId) {x : NodeId} (hx : x < f.size) :
    (f.hang n p).instanced x = f.instanced x := by
  obtain ⟨k, hk, hh⟩ := h.exists_height hx
  exact (h.carries_hang n p).instanced hx hh hk (by rw [size_hang]; omega)

theorem hang (h : f.Nested) {n : Node} (hn : n.children = []) {p : Nat} (hp : p < f.size) :
    (f.hang n p).Nested := by
  have hparent : ∀ x : Nat, x < f.size + 1 → (f.hang n p).parentOf x =
      if x = f.size then some p else f.parentOf x := by
    intro x hx
    split
    · next he => rw [he, parentOf_hang_size n hp]
    · next he => exact parentOf_hang (show x < f.size by omega)
  have hfilter : ∀ x : Nat, (List.range f.size).filter (fun y => (f.hang n p).parentOf y = some x) =
      (List.range f.size).filter fun y => f.parentOf y = some x := by
    intro x
    apply List.filter_congr
    intro y hy
    rw [parentOf_hang (List.mem_range.mp hy)]
  refine ⟨fun x q hq => ?_, ?_, fun x hx h0 => ?_, fun x hx => ?_⟩
  · have hx : x < f.size + 1 := by
      have : x < (f.hang n p).size := lt_size_of_parentOf hq
      rwa [size_hang] at this
    rw [hparent x hx] at hq
    split at hq
    · next he =>
      obtain rfl := Option.some.inj hq
      omega
    · exact h.grown x q hq
  · rw [parentOf_hang (show 0 < f.size by omega), h.top]
  · rw [size_hang] at hx
    rw [hparent x hx]
    split
    · exact ⟨p, rfl⟩
    · exact h.below x (by omega) h0
  · rw [size_hang] at hx
    rw [size_hang, List.range_succ, List.filter_append, hfilter]
    by_cases he : x = f.size
    · have hnone : (List.range f.size).filter (fun y => f.parentOf y = some x) = [] := by
        rw [List.filter_eq_nil_iff]
        intro (y : Nat) hy hyx
        have h1 : y < f.size := List.mem_range.mp hy
        have h2 : x < y := h.grown y x (by simpa using hyx)
        omega
      have hpx : p ≠ x := by omega
      rw [hnone, he, childrenOf, node_hang_size n hp, List.nil_append, List.filter_cons,
        parentOf_hang_size n hp, if_neg (by simpa [he] using hpx)]
      exact hn
    · have hlt : x < f.size := by omega
      rw [childrenOf, node_hang_of_lt n p hlt, ← h.children x hlt]
      by_cases hpx : p = x
      · simp [hpx, parentOf_hang_size n (show x < f.size from hlt)]
      · simp [hpx, parentOf_hang_size n hp, childrenOf]

end Nested

/-- When a node was added, no node was there that is nearer to it on its parent path than its
parent. -/
def Foreseen (f : Forest) : Prop := ∀ x p : Nat, f.parentOf x = some p → ∀ y < x, ∀ j, 0 < j →
  j ≤ (f.node x).innerNames.length → f.segments y ≠ f.segments p ++ (f.node x).innerNames.take j

theorem Foreseen.hang (hf : f.Foreseen) (h : f.Nested) {n : Node} {p : Nat} (hp : p < f.size)
    (hn : ∀ y < f.size, ∀ j, 0 < j → j ≤ n.innerNames.length →
      f.segments y ≠ f.segments p ++ n.innerNames.take j) : (f.hang n p).Foreseen := by
  intro x q hq y hy j hj hjl
  rcases Nested.parentOf_hang_cases hp hq with ⟨rfl, rfl⟩ | ⟨hx, hq⟩
  · have hnames : ((f.hang n q).node f.size).innerNames = n.innerNames := by
      rw [node_hang_size n hp]
      rfl
    rw [hnames] at hjl ⊢
    rw [h.segments_hang n q hy, h.segments_hang n q hp]
    exact hn y hy j hj hjl
  · have hnames : ((f.hang n p).node x).innerNames = (f.node x).innerNames := by
      rw [node_hang_of_lt n p hx]
      split <;> rfl
    rw [hnames] at hjl ⊢
    rw [h.segments_hang n p (show y < f.size by omega), h.segments_hang n p (h.parent_lt hq)]
    exact hf x q hq y hy j hj hjl

def Recent (f : Forest) : Prop := ∀ x p : Nat, f.parentOf x = some p → ∀ y, p < y → y < x →
  f.segments y ≠ f.segments p

def PathsDiffer (f : Forest) : Prop :=
  ∀ x y : Nat, x < f.size → y < f.size → f.segments x = f.segments y → x = y

theorem PathsDiffer.recent (h : f.PathsDiffer) : f.Recent := by
  intro x p hp y hpy hyx he
  have hx : x < f.size := lt_size_of_parentOf hp
  have hyp : y = p := h y p (by omega) (by omega) he
  omega

def Behind (f : Forest) (x y : Nat) : Prop := ∃ c v w : Nat,
  f.parentOf v = some c ∧ f.parentOf w = some c ∧ v < w ∧ f.Reaches v x ∧ f.Reaches w y

theorem Behind.below {x y x' y' : Nat} (h : f.Behind x y) (hx : f.Reaches x x')
    (hy : f.Reaches y y') : f.Behind x' y' := by
  obtain ⟨c, v, w, hv, hw, hvw, hvx, hwy⟩ := h
  exact ⟨c, v, w, hv, hw, hvw, hvx.trans hx, hwy.trans hy⟩

theorem split_of_pairwise {l : List Nat} (h : l.Pairwise (· < ·)) {x w : Nat} (hx : x ∈ l)
    (hw : w ∈ l) (hlt : x < w) : ∃ as bs cs, l = as ++ x :: bs ++ w :: cs := by
  obtain ⟨as, rest, rfl⟩ := List.append_of_mem hx
  rw [List.pairwise_append] at h
  have hw' : w ∈ rest := by
    rcases List.mem_append.mp hw with hw | hw
    · have := h.2.2 w hw x (by simp)
      omega
    · rcases List.mem_cons.mp hw with rfl | hw
      · omega
      · exact hw
  obtain ⟨bs, cs, rfl⟩ := List.append_of_mem hw'
  exact ⟨as, bs, cs, by simp⟩

theorem eq_take_of_append_eq {is t u : List Text} {a : Text} (h : is ++ [a] = t ++ u) (hu : u ≠ []) :
    t = is.take t.length ∧ t.length ≤ is.length := by
  have hlen := congrArg List.length h
  have hpos := List.length_pos_iff.mpr hu
  simp only [List.length_append, List.length_singleton] at hlen
  have hle : t.length ≤ is.length := by omega
  refine ⟨?_, hle⟩
  have ht := congrArg (List.take t.length) h
  rw [List.take_append_of_le_length hle, List.take_left'] at ht
  · exact ht.symm
  · rfl

namespace Nested

theorem reaches_of_parentOf (h : f.Nested) {x p : Nat} (hp : f.parentOf x = some p) :
    f.Reaches p x := by
  apply Relation.ReflTransGen.single
  rw [Lists, h.children p (h.parent_lt hp), List.mem_filter]
  exact ⟨List.mem_range.mpr (lt_size_of_parentOf hp), by simpa using hp⟩

theorem behind_of_later (h : f.Nested) (hf : f.Foreseen) (hr : f.Recent) {x p y j : Nat}
    (hp : f.parentOf x = some p) (hxy : x < y) (hy : y < f.size) (hj : 0 < j)
    (hjl : j ≤ (f.node x).steps.length)
    (hs : f.segments y = f.segments p ++ (f.node x).steps.take j) : f.Behind x y := by
  induction y using Nat.strongRecOn generalizing x p j with
  | ind y ih =>
    have hpx : p < x := h.grown x p hp
    obtain ⟨(q : Nat), hq⟩ := h.below y hy (by omega)
    have hqy : q < y := h.grown y q hq
    have hsx := congrArg List.length (h.segments_eq hp)
    rw [List.length_append, Node.steps_eq, List.length_append, List.length_singleton] at hsx
    -- a parent with the path of `p` is `p`, or it is later than `x` in the place of `p`
    have hsame : f.segments q = f.segments p → f.Behind x y := by
      intro he
      rcases Nat.lt_trichotomy q p with hqp | rfl | hpq
      · exact absurd he.symm (hr y q hq p hqp (by omega))
      · exact ⟨q, x, y, hp, hq, hxy, .refl, .refl⟩
      · have hxq : x < q := by
          rcases Nat.lt_trichotomy q x with hqx | rfl | hxq
          · exact absurd he (hr x p hp q hpq hqx)
          · rw [he] at hsx
            omega
          · exact hxq
        have hpos : 0 < (f.node p).steps.length := by
          rw [Node.steps_eq]
          simp
        have hp0 : p ≠ 0 := by
          rintro rfl
          obtain ⟨q', hq'⟩ := h.below q (by omega) (by omega)
          rw [h.segments_eq hq', segments_of_none h.top, Node.steps_eq] at he
          simp at he
        obtain ⟨p', hp'⟩ := h.below p (by omega) hp0
        have hsp : f.segments q = f.segments p' ++ (f.node p).steps.take (f.node p).steps.length := by
          rw [he, List.take_length, h.segments_eq hp']
        exact (ih q hqy hp' hpq (by omega) hpos (Nat.le_refl _) hsp).below
          (h.reaches_of_parentOf hp) (h.reaches_of_parentOf hq)
    have hsy := h.segments_eq hq
    rw [hs, Node.steps_eq (f.node y)] at hsy
    rcases List.append_eq_append_iff.mp hsy with ⟨t, ht, htake⟩ | ⟨t, ht, hsteps⟩
    · by_cases htn : t = []
      · exact hsame (by rw [ht, htn, List.append_nil])
      · -- the parent lies on the way to `x` as well
        have hpos := List.length_pos_iff.mpr htn
        have hlen := congrArg List.length htake
        simp only [List.length_take, List.length_append, List.length_singleton] at hlen
        have htl : t = (f.node x).steps.take t.length := by
          have := congrArg (List.take t.length) htake
          rw [List.take_take, List.take_left' rfl, Nat.min_eq_left (by omega)] at this
          exact this.symm
        have hsq : f.segments q = f.segments p ++ (f.node x).steps.take t.length := by
          rw [← htl, ht]
        have hsteps : (f.node x).steps.length = (f.node x).innerNames.length + 1 := by
          rw [Node.steps_eq, List.length_append, List.length_singleton]
        rcases Nat.lt_trichotomy q x with hlt | rfl | hgt
        · rw [Node.steps_eq, List.take_append_of_le_length (by omega)] at hsq
          exact absurd hsq (hf x p hp q hlt t.length hpos (by omega))
        · rw [hsq, List.length_append, List.length_take] at hsx
          omega
        · exact (ih q hqy hp hgt (by omega) hpos (by omega) hsq).below .refl
            (h.reaches_of_parentOf hq)
    · by_cases htn : t = []
      · exact hsame (by rw [ht, htn, List.append_nil])
      · -- the parent of `x` would have been nearer to `y` than `q` is
        have hne : (f.node x).steps.take j ≠ [] := by
          have : 0 < ((f.node x).steps.take j).length := by
            rw [List.length_take]
            omega
          exact List.length_pos_iff.mp this
        obtain ⟨htl, hle⟩ := eq_take_of_append_eq hsteps hne
        refine absurd ?_ (hf y q hq p (by omega) t.length (List.length_pos_iff.mpr htn) hle)
        rw [← htl, ht]

theorem not_mem_of_behind (h : f.Nested) {pre post : List NodeId} {x y : Nat}
    (hw : f.walk 0 = pre ++ x :: post) (hxy : f.Behind x y) : y ∉ pre := by
  obtain ⟨c, v, w, hv, hw', hvw, hvx, hwy⟩ := hxy
  have hc : c < f.size := h.parent_lt hv
  have ht := h.isTree (by omega)
  have hsorted : (f.childrenOf c).Pairwise (fun a b : Nat => a < b) := by
    rw [h.children c hc]
    exact List.pairwise_lt_range.filter _
  have hmem : ∀ z : Nat, f.parentOf z = some c → z ∈ f.childrenOf c := fun z hz =>
    (ht.reaches_parent (h.reaches (lt_size_of_parentOf hz)) hz).2
  obtain ⟨as, bs, cs, hcs⟩ := split_of_pairwise hsorted (hmem v hv) (hmem w hw') hvw
  exact ht.not_mem_before (h.reaches hc) hcs hvx hw hwy

theorem nearest (h : f.Nested) (hf : f.Foreseen) (hr : f.Recent) {pre post : List NodeId}
    {x p y : Nat} (hw : f.walk 0 = pre ++ x :: post) (hp : f.parentOf x = some p) (hy : y ∈ pre)
    {j : Nat} (hj : 0 < j) (hjl : j ≤ (f.node x).innerNames.length) :
    f.segments y ≠ f.segments p ++ (f.node x).innerNames.take j := by
  intro hs
  have hx : x < f.size := lt_size_of_parentOf hp
  have ht := h.isTree (by omega)
  have hys : y < f.size := ht.lt_size (ht.mem_walk.mp (by simp [hw, hy]))
  have hxy : x ≠ y := by
    rintro rfl
    have hnd := ht.nodup_walk .refl
    rw [hw] at hnd
    exact (List.nodup_append.mp hnd).2.2 x hy x (by simp) rfl
  rcases Nat.lt_or_gt_of_ne hxy with hlt | hgt
  · refine h.not_mem_of_behind hw (h.behind_of_later hf hr hp hlt hys hj (j := j) ?_ ?_) hy
    · rw [Node.steps_eq, List.length_append]
      omega
    · rw [Node.steps_eq, List.take_append_of_le_length hjl, hs]
  · exact hf x p hp y hgt j hj hjl hs

theorem last (h : f.Nested) {pre post : List NodeId} {x p : Nat}
    (hw : f.walk 0 = pre ++ x :: post) (hp : f.parentOf x = some p) :
    ∃ m m', pre = m ++ p :: m' ∧ ∀ z ∈ m', f.segments z ≠ f.segments p := by
  have hps := h.parent_lt hp
  have ht := h.isTree (by omega)
  have hne : x ≠ 0 := by
    rintro rfl
    simp [h.top] at hp
  obtain ⟨p', m, m', hp', hpre, hm⟩ := ht.walk_split .refl hw hne
  obtain rfl : p' = p := by simpa [hp] using hp'.symm
  refine ⟨m, m', hpre, fun z hz he => ?_⟩
  obtain ⟨hreach, hzp⟩ := hm z hz
  rcases ht.length_segments (h.reaches hps) hreach with rfl | hlt
  · exact hzp rfl
  · rw [he] at hlt
    exact Nat.lt_irrefl _ hlt

end Nested

end Coursework.Scene.Forest
