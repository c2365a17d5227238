import Mathlib.Data.List.Nodup
import Mathlib.Data.List.Perm.Subperm
import Mathlib.Logic.Relation
import Coursework.Scene.Forest

namespace Coursework.Scene.Forest

variable {f : Forest} {r : NodeId}

def Lists (f : Forest) (p c : NodeId) : Prop := c ∈ f.childrenOf p

abbrev Reaches (f : Forest) : NodeId → NodeId → Prop := Relation.ReflTransGen f.Lists

/-- Below a root without a parent, each child is listed once and names the node that lists it. -/
structure IsTree (f : Forest) (r : NodeId) : Prop where
  inStore : r < f.size
  root : f.parentOf r = none
  once : ∀ x, f.Reaches r x → (f.childrenOf x).Nodup
  parent : ∀ x c, f.Reaches r x → c ∈ f.childrenOf x → f.parentOf c = some x

/-! ### Heights -/

def Height (f : Forest) : Nat → NodeId → Prop
  | 0, x => f.parentOf x = none
  | n + 1, x => ∃ p, f.parentOf x = some p ∧ f.Height n p

theorem Height.unique {n m : Nat} {x : NodeId} (hn : f.Height n x) (hm : f.Height m x) : n = m := by
  induction n generalizing m x with
  | zero =>
    cases m with
    | zero => rfl
    | succ m =>
      obtain ⟨p, hp, -⟩ := hm
      have hx : f.parentOf x = none := hn
      simp [hx] at hp
  | succ n ih =>
    obtain ⟨p, hp, hn⟩ := hn
    cases m with
    | zero =>
      have hx : f.parentOf x = none := hm
      simp [hx] at hp
    | succ m =>
      obtain ⟨q, hq, hm⟩ := hm
      obtain rfl : p = q := by simpa [hp] using hq
      rw [ih hn hm]

theorem lt_size_of_parentOf {x p : NodeId} (h : f.parentOf x = some p) : x < f.size := by
  by_contra hx
  have hn : f.nodes[x]? = none := List.getElem?_eq_none_iff.mpr (Nat.le_of_not_lt hx)
  simp [parentOf, node, hn, show (default : Node).parent = none from rfl] at h

namespace IsTree

theorem lt_size (h : f.IsTree r) {x : NodeId} (hx : f.Reaches r x) : x < f.size := by
  cases hx with
  | refl => exact h.inStore
  | tail hp hc => exact lt_size_of_parentOf (h.parent _ _ hp hc)

theorem exists_height (h : f.IsTree r) {x : NodeId} (hx : f.Reaches r x) : ∃ n, f.Height n x := by
  induction hx with
  | refl => exact ⟨0, h.root⟩
  | tail hp hc ih =>
    obtain ⟨n, hn⟩ := ih
    exact ⟨n + 1, _, h.parent _ _ hp hc, hn⟩

theorem height_child (h : f.IsTree r) {x c : NodeId} {n : Nat} (hx : f.Reaches r x)
    (hc : c ∈ f.childrenOf x) (hn : f.Height n x) : f.Height (n + 1) c :=
  ⟨x, h.parent x c hx hc, hn⟩

theorem exists_line (h : f.IsTree r) {x : NodeId} (hx : f.Reaches r x) {n : Nat}
    (hn : f.Height n x) :
    ∃ l : List NodeId, l.length = n + 1 ∧ l.Nodup ∧
      ∀ y ∈ l, y < f.size ∧ ∃ m ≤ n, f.Height m y := by
  induction hx generalizing n with
  | refl =>
    obtain rfl := hn.unique (m := 0) h.root
    exact ⟨[r], rfl, by simp, by simpa using ⟨h.inStore, h.root⟩⟩
  | @tail p c hp hc ih =>
    obtain ⟨k, hk⟩ := h.exists_height hp
    obtain rfl := hn.unique (h.height_child hp hc hk)
    obtain ⟨l, hl, hnd, hm⟩ := ih hk
    refine ⟨c :: l, by simp [hl], List.nodup_cons.mpr ⟨fun hcl => ?_, hnd⟩, fun y hy => ?_⟩
    · obtain ⟨-, m, hmk, hmc⟩ := hm c hcl
      have := hmc.unique hn
      omega
    · rcases List.mem_cons.mp hy with rfl | hy
      · exact ⟨h.lt_size (hp.tail hc), k + 1, Nat.le_refl _, hn⟩
      · obtain ⟨hs, m, hmk, hmy⟩ := hm y hy
        exact ⟨hs, m, by omega, hmy⟩

theorem height_lt (h : f.IsTree r) {x : NodeId} (hx : f.Reaches r x) {n : Nat}
    (hn : f.Height n x) : n < f.size := by
  obtain ⟨l, hl, hnd, hm⟩ := h.exists_line hx hn
  have hsub : l ⊆ List.range f.size := fun y hy => List.mem_range.mpr (hm y hy).1
  have := (hnd.subperm hsub).length_le
  simp only [hl, List.length_range] at this
  omega

theorem induction (h : f.IsTree r) {P : NodeId → Prop}
    (step : ∀ x, f.Reaches r x → (∀ c ∈ f.childrenOf x, P c) → P x) :
    ∀ x, f.Reaches r x → P x := by
  have main : ∀ k n x, f.Reaches r x → f.Height n x → f.size - n = k → P x := by
    intro k
    induction k with
    | zero =>
      intro n x hx hn hk
      have := h.height_lt hx hn
      omega
    | succ k ih =>
      intro n x hx hn hk
      apply step x hx
      intro c hc
      have hcx := hx.tail hc
      exact ih (n + 1) c hcx (h.height_child hx hc hn) (by omega)
  intro x hx
  obtain ⟨n, hn⟩ := h.exists_height hx
  exact main _ n x hx hn rfl

end IsTree

/-! ### Visits -/

theorem Visit.inOrder_eq {visit : NodeId → Visit} {ids : List NodeId}
    (h : ∀ id ∈ ids, (visit id).ends = true) :
    Visit.inOrder visit ids = ⟨ids.flatMap fun id => (visit id).nodes, true⟩ := by
  induction ids with
  | nil => rfl
  | cons id ids ih =>
    have hid := h id (by simp)
    simp [Visit.inOrder, hid, ih fun i hi => h i (List.mem_cons_of_mem _ hi)]

theorem Visit.ends_of_inOrder {visit : NodeId → Visit} {ids : List NodeId}
    (h : (Visit.inOrder visit ids).ends = true) : ∀ id ∈ ids, (visit id).ends = true := by
  induction ids with
  | nil => simp
  | cons id ids ih =>
    by_cases hid : (visit id).ends = true
    · simp only [Visit.inOrder, hid, if_true] at h
      intro i hi
      rcases List.mem_cons.mp hi with rfl | hi
      · exact hid
      · exact ih h i hi
    · simp [Visit.inOrder, hid] at h

theorem visitWithin_succ {d : Nat} {x : NodeId} (h : (f.visitWithin d x).ends = true) :
    f.visitWithin (d + 1) x = f.visitWithin d x := by
  induction d generalizing x with
  | zero => simp [visitWithin] at h
  | succ d ih =>
    have hall := Visit.ends_of_inOrder (show (Visit.inOrder (f.visitWithin d) _).ends = true from h)
    have hall' : ∀ c ∈ f.childrenOf x, (f.visitWithin (d + 1) c).ends = true := fun c hc => by
      rw [ih (hall c hc)]
      exact hall c hc
    have hm : ∀ c ∈ f.childrenOf x,
        (f.visitWithin (d + 1) c).nodes = (f.visitWithin d c).nodes := fun c hc => by
      rw [ih (hall c hc)]
    rw [visitWithin, visitWithin, Visit.inOrder_eq hall, Visit.inOrder_eq hall']
    simp [List.flatMap_def, List.map_congr_left hm]

namespace IsTree

theorem visitWithin_ends (h : f.IsTree r) {d n : Nat} {x : NodeId} (hx : f.Reaches r x)
    (hn : f.Height n x) (hd : f.size ≤ n + d) : (f.visitWithin d x).ends = true := by
  induction d generalizing n x with
  | zero =>
    have := h.height_lt hx hn
    omega
  | succ d ih =>
    have hall : ∀ c ∈ f.childrenOf x, (f.visitWithin d c).ends = true := fun c hc =>
      ih (hx.tail hc) (h.height_child hx hc hn) (by omega)
    simp [visitWithin, Visit.inOrder_eq hall]

theorem visit_ends (h : f.IsTree r) {x : NodeId} (hx : f.Reaches r x) : (f.visit x).ends = true := by
  obtain ⟨n, hn⟩ := h.exists_height hx
  exact h.visitWithin_ends hx hn (by omega)

theorem walk_eq (h : f.IsTree r) {x : NodeId} (hx : f.Reaches r x) :
    f.walk x = x :: (f.childrenOf x).flatMap f.walk := by
  obtain ⟨n, hn⟩ := h.exists_height hx
  obtain ⟨d, hd⟩ : ∃ d, f.size = d + 1 := ⟨f.size - 1, by have := h.height_lt hx hn; omega⟩
  have hall : ∀ c ∈ f.childrenOf x, (f.visitWithin d c).ends = true := fun c hc =>
    h.visitWithin_ends (hx.tail hc) (h.height_child hx hc hn) (by omega)
  have hm : ∀ c ∈ f.childrenOf x, (f.visitWithin d c).nodes = f.walk c := fun c hc => by
    rw [walk, visit, hd, visitWithin_succ (hall c hc)]
  rw [walk, visit, hd, visitWithin, Visit.inOrder_eq hall]
  simp [List.flatMap_def, List.map_congr_left hm]

theorem mem_walk_iff (h : f.IsTree r) {x y : NodeId} (hx : f.Reaches r x) :
    y ∈ f.walk x ↔ f.Reaches x y := by
  refine h.induction (P := fun x => ∀ y, y ∈ f.walk x ↔ f.Reaches x y) ?_ x hx y
  intro x hx ih y
  rw [h.walk_eq hx, List.mem_cons, List.mem_flatMap]
  constructor
  · rintro (rfl | ⟨c, hc, hy⟩)
    · exact .refl
    · exact .head hc ((ih c hc y).mp hy)
  · intro hy
    rcases Relation.ReflTransGen.cases_head hy with rfl | ⟨c, hc, hy⟩
    · exact .inl rfl
    · exact .inr ⟨c, hc, (ih c hc y).mpr hy⟩

theorem height_of_reaches (h : f.IsTree r) {x y : NodeId} (hx : f.Reaches r x)
    (hy : f.Reaches x y) {n : Nat} (hn : f.Height n x) :
    ∃ m, f.Height m y ∧ n ≤ m ∧ (n = m → x = y) := by
  induction hy with
  | refl => exact ⟨n, hn, Nat.le_refl _, fun _ => rfl⟩
  | tail hp hc ih =>
    obtain ⟨m, hm, hle, -⟩ := ih
    exact ⟨m + 1, h.height_child (hx.trans hp) hc hm, by omega, by omega⟩

theorem eq_of_reaches (h : f.IsTree r) {a b y : NodeId} {n : Nat} (ha : f.Reaches r a)
    (hb : f.Reaches r b) (hna : f.Height n a) (hnb : f.Height n b) (hay : f.Reaches a y)
    (hby : f.Reaches b y) : a = b := by
  induction hay with
  | refl =>
    obtain ⟨m, hm, -, he⟩ := h.height_of_reaches hb hby hnb
    exact (he (hna.unique hm)).symm
  | @tail p y hp hy ih =>
    obtain ⟨m, hm, hle, -⟩ := h.height_of_reaches ha hp hna
    have hmy := h.height_child (ha.trans hp) hy hm
    cases hby with
    | refl =>
      have := hmy.unique hnb
      omega
    | @tail q _ hq hy' =>
      obtain rfl : p = q := by
        have h1 := h.parent p y (ha.trans hp) hy
        have h2 := h.parent q y (hb.trans hq) hy'
        simpa [h1] using h2
      exact ih hq

theorem nodup_walk (h : f.IsTree r) {x : NodeId} (hx : f.Reaches r x) : (f.walk x).Nodup := by
  refine h.induction (P := fun x => (f.walk x).Nodup) ?_ x hx
  intro x hx ih
  obtain ⟨n, hn⟩ := h.exists_height hx
  rw [h.walk_eq hx, List.nodup_cons, List.nodup_flatMap]
  refine ⟨?_, ih, ?_⟩
  · rw [List.mem_flatMap]
    rintro ⟨c, hc, hxc⟩
    have hcn := h.height_child hx hc hn
    obtain ⟨m, hm, hle, -⟩ :=
      h.height_of_reaches (hx.tail hc) ((h.mem_walk_iff (hx.tail hc)).mp hxc) hcn
    have := hn.unique hm
    omega
  · refine List.Pairwise.imp_of_mem ?_ (h.once x hx)
    intro a b ha hb hne y hya hyb
    exact hne (h.eq_of_reaches (hx.tail ha) (hx.tail hb) (h.height_child hx ha hn)
      (h.height_child hx hb hn) ((h.mem_walk_iff (hx.tail ha)).mp hya)
      ((h.mem_walk_iff (hx.tail hb)).mp hyb))

end IsTree

/-! ### Ways up -/

theorem risesWithin_of_height {d n : Nat} {x : NodeId} (hn : f.Height n x) (hd : n < d) :
    f.risesWithin d x = true := by
  induction n generalizing d x with
  | zero =>
    obtain ⟨d, rfl⟩ : ∃ e, d = e + 1 := ⟨d - 1, by omega⟩
    have hx : f.parentOf x = none := hn
    simp [risesWithin, hx]
  | succ n ih =>
    obtain ⟨d, rfl⟩ : ∃ e, d = e + 1 := ⟨d - 1, by omega⟩
    obtain ⟨p, hp, hn⟩ := hn
    simp [risesWithin, hp, ih hn (show n < d by omega)]

theorem segmentsWithin_of_height {d e n : Nat} {x : NodeId} (hn : f.Height n x) (hd : n < d)
    (he : n < e) : f.segmentsWithin d x = f.segmentsWithin e x := by
  induction n generalizing d e x with
  | zero =>
    obtain ⟨d, rfl⟩ : ∃ k, d = k + 1 := ⟨d - 1, by omega⟩
    obtain ⟨e, rfl⟩ : ∃ k, e = k + 1 := ⟨e - 1, by omega⟩
    have hx : f.parentOf x = none := hn
    simp [segmentsWithin, hx]
  | succ n ih =>
    obtain ⟨d, rfl⟩ : ∃ k, d = k + 1 := ⟨d - 1, by omega⟩
    obtain ⟨e, rfl⟩ : ∃ k, e = k + 1 := ⟨e - 1, by omega⟩
    obtain ⟨p, hp, hn⟩ := hn
    simp [segmentsWithin, hp, ih hn (show n < d by omega) (show n < e by omega)]

theorem instancedWithin_of_height {d e n : Nat} {x : NodeId} (hn : f.Height n x) (hd : n < d)
    (he : n < e) : f.instancedWithin d x = f.instancedWithin e x := by
  induction n generalizing d e x with
  | zero =>
    obtain ⟨d, rfl⟩ : ∃ k, d = k + 1 := ⟨d - 1, by omega⟩
    obtain ⟨e, rfl⟩ : ∃ k, e = k + 1 := ⟨e - 1, by omega⟩
    have hx : f.parentOf x = none := hn
    simp [instancedWithin, hx]
  | succ n ih =>
    obtain ⟨d, rfl⟩ : ∃ k, d = k + 1 := ⟨d - 1, by omega⟩
    obtain ⟨e, rfl⟩ : ∃ k, e = k + 1 := ⟨e - 1, by omega⟩
    obtain ⟨p, hp, hn⟩ := hn
    simp [instancedWithin, hp, ih hn (show n < d by omega) (show n < e by omega)]

theorem rises_of_height {n : Nat} {x : NodeId} (hn : f.Height n x) (hs : n < f.size) :
    f.rises x = true := risesWithin_of_height hn hs

theorem segments_of_none {x : NodeId} (h : f.parentOf x = none) : f.segments x = [] := by
  unfold segments
  cases f.size with
  | zero => rfl
  | succ d => simp [segmentsWithin, h]

theorem segments_of_height {x p : NodeId} {n : Nat} (hn : f.Height n x) (hs : n < f.size)
    (hp : f.parentOf x = some p) : f.segments x = f.segments p ++ (f.node x).steps := by
  obtain ⟨d, hd⟩ : ∃ d, f.size = d + 1 := ⟨f.size - 1, by omega⟩
  cases n with
  | zero =>
    have hx' : f.parentOf x = none := hn
    simp [hx'] at hp
  | succ n =>
    obtain ⟨q, hq, hn⟩ := hn
    obtain rfl : q = p := by simpa [hp] using hq.symm
    rw [segments, hd, segmentsWithin, hp]
    simp only [List.append_cancel_right_eq]
    rw [segments, hd]
    exact segmentsWithin_of_height hn (by omega) (by omega)

namespace IsTree

theorem rises (h : f.IsTree r) {x : NodeId} (hx : f.Reaches r x) : f.rises x = true := by
  obtain ⟨n, hn⟩ := h.exists_height hx
  exact rises_of_height hn (h.height_lt hx hn)

theorem segments_eq (h : f.IsTree r) {x p : NodeId} (hx : f.Reaches r x)
    (hp : f.parentOf x = some p) : f.segments x = f.segments p ++ (f.node x).steps := by
  obtain ⟨n, hn⟩ := h.exists_height hx
  exact segments_of_height hn (h.height_lt hx hn) hp

theorem subtree_below (h : f.IsTree r) {x : NodeId} (hx : f.Reaches r x) :
    f.subtree x = .ok (f.walk x) := by
  have hall : (f.walk x).all f.rises = true := by
    rw [List.all_eq_true]
    exact fun y hy => h.rises (hx.trans ((h.mem_walk_iff hx).mp hy))
  have he := h.visit_ends hx
  unfold walk at hall
  simp only [subtree, he, hall, Bool.and_self, if_true]
  rfl

theorem subtree_eq (h : f.IsTree r) : f.subtree r = .ok (f.walk r) := h.subtree_below .refl

theorem listed (h : f.IsTree r) {x : NodeId} (hx : f.Reaches r x) (hne : x ≠ r) :
    ∃ p, f.parentOf x = some p ∧ f.Reaches r p ∧ x ∈ f.childrenOf p := by
  cases hx with
  | refl => exact absurd rfl hne
  | tail hp hc => exact ⟨_, h.parent _ _ hp hc, hp, hc⟩

theorem reaches_parent (h : f.IsTree r) {x p : NodeId} (hx : f.Reaches r x)
    (hp : f.parentOf x = some p) : f.Reaches r p ∧ x ∈ f.childrenOf p := by
  have hne : x ≠ r := by
    rintro rfl
    simp [h.root] at hp
  obtain ⟨q, hq, hr, hl⟩ := h.listed hx hne
  obtain rfl : q = p := by simpa [hp] using hq.symm
  exact ⟨hr, hl⟩

end IsTree

/-! ### The order of a walk -/

theorem flatMap_split {α β : Type} {g : α → List β} {cs : List α} {pre post : List β} {y : β}
    (h : cs.flatMap g = pre ++ y :: post) :
    ∃ as c bs m n, cs = as ++ c :: bs ∧ pre = as.flatMap g ++ m ∧ g c = m ++ y :: n := by
  induction cs generalizing pre with
  | nil => simp at h
  | cons c cs ih =>
    rw [List.flatMap_cons] at h
    rcases List.append_eq_append_iff.mp h with ⟨m, rfl, hm⟩ | ⟨m, hg, hm⟩
    · obtain ⟨as, d, bs, k, n, rfl, rfl, hd⟩ := ih hm
      exact ⟨c :: as, d, bs, k, n, rfl, by simp, hd⟩
    · cases m with
      | nil =>
        obtain ⟨as, d, bs, k, n, rfl, hk, hd⟩ := ih (show cs.flatMap g = [] ++ y :: post from hm.symm)
        exact ⟨c :: as, d, bs, k, n, rfl, by simp [← hk, hg], hd⟩
      | cons z m =>
        obtain ⟨rfl, -⟩ := List.cons.inj hm
        exact ⟨[], c, cs, pre, m, rfl, rfl, hg⟩

theorem sublist_flatMap {α : Type} {g : α → List α} {cs : List α}
    (h : ∀ c ∈ cs, ∃ t, g c = c :: t) : cs.Sublist (cs.flatMap g) := by
  induction cs with
  | nil => exact .slnil
  | cons c cs ih =>
    obtain ⟨t, ht⟩ := h c (by simp)
    rw [List.flatMap_cons, ht, List.cons_append]
    exact (ih fun d hd => h d (List.mem_cons_of_mem _ hd)).trans (List.sublist_append_right _ _)
      |>.cons_cons c

namespace IsTree

theorem walk_split (h : f.IsTree r) {x : NodeId} (hx : f.Reaches r x) {pre post : List NodeId}
    {y : NodeId} (hw : f.walk x = pre ++ y :: post) (hy : y ≠ x) :
    ∃ p m m', f.parentOf y = some p ∧ pre = m ++ p :: m' ∧
      ∀ z ∈ m', f.Reaches p z ∧ z ≠ p := by
  refine h.induction (P := fun x => ∀ pre y post, f.walk x = pre ++ y :: post → y ≠ x →
    ∃ p m m', f.parentOf y = some p ∧ pre = m ++ p :: m' ∧ ∀ z ∈ m', f.Reaches p z ∧ z ≠ p)
    ?_ x hx pre y post hw hy
  intro x hx ih pre y post hw hy
  obtain ⟨n, hn⟩ := h.exists_height hx
  rw [h.walk_eq hx] at hw
  cases pre with
  | nil => exact absurd (List.cons.inj hw).1.symm hy
  | cons w pre =>
    obtain ⟨rfl, hw'⟩ := List.cons.inj hw
    obtain ⟨as, c, bs, m, k, hcs, rfl, hc⟩ :=
      flatMap_split (show (f.childrenOf x).flatMap f.walk = pre ++ y :: post from hw')
    have hcx : c ∈ f.childrenOf x := by simp [hcs]
    by_cases hyc : y = c
    · subst hyc
      have hm : m = [] := by
        have hnd := h.nodup_walk (hx.tail hcx)
        rw [h.walk_eq (hx.tail hcx)] at hc hnd
        cases m with
        | nil => rfl
        | cons z m =>
          obtain ⟨rfl, ht⟩ := List.cons.inj hc
          exact absurd (by simp [ht]) (List.nodup_cons.mp hnd).1
      subst hm
      refine ⟨x, [], as.flatMap f.walk, h.parent x y hx hcx, by simp, fun z hz => ?_⟩
      obtain ⟨a, ha, hz⟩ := List.mem_flatMap.mp hz
      have hax : a ∈ f.childrenOf x := by simp [hcs, ha]
      have hzr := (h.mem_walk_iff (hx.tail hax)).mp hz
      refine ⟨.head hax hzr, ?_⟩
      rintro rfl
      obtain ⟨k, hk, hle, -⟩ := h.height_of_reaches (hx.tail hax) hzr (h.height_child hx hax hn)
      have := hn.unique hk
      omega
    · obtain ⟨p, m1, m2, hp, rfl, hm⟩ := ih c hcx m y k hc hyc
      exact ⟨p, x :: (as.flatMap f.walk ++ m1), m2, hp, by simp, hm⟩

theorem walk_infix (h : f.IsTree r) {x : NodeId} (hx : f.Reaches r x) :
    f.walk x <:+: f.walk r := by
  induction hx with
  | refl => exact List.infix_refl _
  | @tail p c hp hc ih =>
    refine List.IsInfix.trans ?_ ih
    obtain ⟨as, bs, hab⟩ := List.append_of_mem (show c ∈ f.childrenOf p from hc)
    rw [h.walk_eq hp, hab]
    exact ⟨p :: as.flatMap f.walk, bs.flatMap f.walk, by simp⟩

theorem children_eq_filter (h : f.IsTree r) {p : NodeId} (hp : f.Reaches r p) :
    (f.walk r).filter (fun y => f.parentOf y = some p) = f.childrenOf p := by
  have hsub : (f.childrenOf p).Sublist (f.walk r) := by
    refine .trans ?_ (h.walk_infix hp).sublist
    rw [h.walk_eq hp]
    refine .trans (sublist_flatMap fun c hc => ?_) (List.sublist_cons_self _ _)
    exact ⟨_, h.walk_eq (hp.tail hc)⟩
  have hall : (f.childrenOf p).filter (fun y => f.parentOf y = some p) = f.childrenOf p :=
    List.filter_eq_self.mpr fun c hc => by simpa using h.parent p c hp hc
  have hsub' := hsub.filter fun y => decide (f.parentOf y = some p)
  rw [hall] at hsub'
  refine (hsub'.eq_of_length_le ?_).symm
  refine ((h.nodup_walk .refl).filter _).subperm ?_ |>.length_le
  intro y hy
  obtain ⟨hy, hyp⟩ := List.mem_filter.mp hy
  exact (h.reaches_parent ((h.mem_walk_iff .refl).mp hy) (by simpa using hyp)).2

theorem not_mem_before (h : f.IsTree r) {x a b y z : NodeId} {as bs cs pre post : List NodeId}
    (hx : f.Reaches r x) (hc : f.childrenOf x = as ++ a :: bs ++ b :: cs) (hz : f.Reaches a z)
    (hw : f.walk r = pre ++ z :: post) (hy : f.Reaches b y) : y ∉ pre := by
  have ha : a ∈ f.childrenOf x := by simp [hc]
  have hb : b ∈ f.childrenOf x := by simp [hc]
  have hyb := (h.mem_walk_iff (hx.tail hb)).mpr hy
  obtain ⟨u, v, huv⟩ := List.append_of_mem ((h.mem_walk_iff (hx.tail ha)).mpr hz)
  obtain ⟨s, t, hst⟩ := h.walk_infix hx
  have he : f.walk r = (s ++ x :: as.flatMap f.walk ++ u) ++ z ::
      (v ++ bs.flatMap f.walk ++ f.walk b ++ cs.flatMap f.walk ++ t) := by
    rw [← hst, h.walk_eq hx, hc]
    simp [huv]
  have hnd := h.nodup_walk .refl
  have hpre : pre = s ++ x :: as.flatMap f.walk ++ u := by
    rw [hw] at he hnd
    have hz := (List.nodup_cons.mp (List.nodup_middle.mp hnd)).1
    rw [List.mem_append, not_or] at hz
    exact ((List.append_cons_inj_of_notMem hz.1 hz.2).mp he).1
  intro hm
  rw [hpre] at hm
  rw [he] at hnd
  exact (List.nodup_append.mp hnd).2.2 y hm y (by simp [hyb]) rfl

theorem length_segments (h : f.IsTree r) {x y : NodeId} (hx : f.Reaches r x) (hy : f.Reaches x y) :
    y = x ∨ (f.segments x).length < (f.segments y).length := by
  induction hy with
  | refl => exact .inl rfl
  | @tail a b ha hb ih =>
    have hra := hx.trans ha
    have hlt : (f.segments a).length < (f.segments b).length := by
      rw [h.segments_eq (hra.tail hb) (h.parent a b hra hb), Node.steps]
      simp
    rcases ih with rfl | ih
    · exact .inr hlt
    · exact .inr (Nat.lt_trans ih hlt)

end IsTree

end Coursework.Scene.Forest
