import Coursework.Proofs.FileTree.Rooted

/-!
What copying a directory does to the files of a tree.

A copy is compared with a tree `w` in which the way to its place is made and nothing else: what it
takes along stays as it is in `w` for as long as it lies apart from that place.
-/

namespace Coursework.FileTree

variable {t u v w x : FileTree} {l m source target here : Location} {e : Entry} {rel : List Text}
  {names : List Text} {ignores : Ignores} {content : Utf8.Bytes} {time : Int}

/-! ### What a copy takes along -/

def keeps (ignores : Ignores) : Location → List Text → Bool
  | _, [] => true
  | here, name :: names => !ignores here name && keeps ignores (here ++ [name]) names

theorem keeps_cons {name : Text} : keeps ignores here (name :: names) = true ↔
    ignores here name = false ∧ keeps ignores (here ++ [name]) names = true := by
  rw [keeps, Bool.and_eq_true, Bool.not_eq_true']

structure Apart (w u : FileTree) (source target : Location) (ignores : Ignores) : Prop where
  names : ['.', '.'] ∉ target
  intact : ∀ rel, keeps ignores source rel = true → u.get? (source ++ rel) = w.get? (source ++ rel)
  clear : ∀ rel, keeps ignores source rel = true → ¬target <+: source ++ rel

structure Ready (w u : FileTree) (source target : Location) (ignores : Ignores) : Prop
    extends Apart w u source target ignores where
  rooted : u.Rooted
  directory : w.get? source = some .directory
  free : u.get? target = none
  parent : u.get? target.dropLast = some .directory

/-- In `v` lies a copy of what is at a location of `w`, and all else is as in `u`. -/
structure Copied (w u v : FileTree) (source target : Location) (ignores : Ignores) : Prop where
  rooted : v.Rooted
  below : ∀ rel, v.get? (target ++ rel) =
    if keeps ignores source rel = true then w.get? (source ++ rel) else none
  outside : ∀ l, ¬target <+: l → v.get? l = u.get? l

structure Partly (w u v : FileTree) (source target : Location) (ignores : Ignores)
    (done : List Text) : Prop where
  rooted : v.Rooted
  place : v.get? target = some .directory
  below : ∀ name rel, v.get? (target ++ name :: rel) =
    if name ∈ done ∧ keeps ignores source (name :: rel) = true then
      w.get? (source ++ name :: rel) else none
  outside : ∀ l, ¬target <+: l → v.get? l = u.get? l

variable {done : List Text} {name : Text} {levels : Nat}

theorem not_concat_isPrefix (l : Location) (name : Text) : ¬l ++ [name] <+: l := fun h => by
  have hlen := h.length_le
  rw [List.length_append, List.length_singleton] at hlen
  omega

theorem Ready.ne_nil (h : Ready w u source target ignores) : target ≠ [] := by
  rintro rfl
  cases h.free

theorem Ready.put (h : Ready w u source target ignores) : (u.put target .directory).Rooted :=
  h.rooted.put h.ne_nil h.names h.parent fun _ => rfl

theorem Ready.start (h : Ready w u source target ignores) :
    Partly w u (u.put target .directory) source target ignores [] where
  rooted := h.put
  place := (get?_put u .directory h.ne_nil).trans (if_pos rfl)
  below name rel := by
    rw [get?_put u .directory h.ne_nil, if_neg (by simp), h.rooted.none_below h.free]
    simp
  outside l hl := by
    rw [get?_put u .directory h.ne_nil, if_neg]
    rintro rfl
    exact hl (List.prefix_refl _)

theorem Partly.next (h : Partly w u v source target ignores done) (hi : ignores source name = false)
    (hc : Copied w v x (source ++ [name]) (target ++ [name]) ignores) :
    Partly w u x source target ignores (name :: done) where
  rooted := hc.rooted
  place := by rw [hc.outside target (not_concat_isPrefix target name), h.place]
  below name' rel := by
    by_cases he : name' = name
    · have hk : keeps ignores source (name :: rel) = true ↔
          ignores source name = false ∧ keeps ignores (source ++ [name]) rel = true := keeps_cons
      rw [he, List.append_cons, hc.below rel, ← List.append_cons]
      simp only [hk, hi, List.mem_cons_self, true_and]
    · have hout : ¬target ++ [name] <+: target ++ name' :: rel := fun hp => by
        obtain ⟨hn, -⟩ := List.cons_prefix_cons.mp ((List.prefix_append_right_inj target).mp hp)
        exact he hn.symm
      rw [hc.outside _ hout, h.below]
      simp only [List.mem_cons, he, false_or]
  outside l hl := by
    rw [hc.outside l fun hp => hl ((List.prefix_append target [name]).trans hp), h.outside l hl]

theorem Partly.free (h : Partly w u v source target ignores done) (hname : name ∉ done) :
    v.get? (target ++ [name]) = none := by
  rw [h.below]
  simp [hname]

theorem Apart.entry (hw : w.Rooted) (h : Apart w u source target ignores)
    (hv : Partly w u v source target ignores done) (hi : ignores source name = false)
    (hg : w.get? (source ++ [name]) = some e) :
    Apart w v (source ++ [name]) (target ++ [name]) ignores := by
  have hclear : ∀ rel, keeps ignores (source ++ [name]) rel = true →
      ¬target <+: source ++ [name] ++ rel := fun rel hk => by
    rw [← List.append_cons]
    exact h.clear (name :: rel) (keeps_cons.mpr ⟨hi, hk⟩)
  refine ⟨fun hm => ?_, fun rel hk => ?_, fun rel hk hp => ?_⟩
  · rcases List.mem_append.mp hm with hm | hm
    · exact h.names hm
    · exact hw.not_mem_of_get? hg (List.mem_append_right source hm)
  · rw [hv.outside _ (hclear rel hk), ← List.append_cons]
    exact h.intact (name :: rel) (keeps_cons.mpr ⟨hi, hk⟩)
  · exact hclear rel hk ((List.prefix_append target [name]).trans hp)

theorem copyAt_copied (hw : w.Rooted) (hv : v.Rooted) (hn : ['.', '.'] ∉ target)
    (hf : v.get? target = none) (hd : v.get? target.dropLast = some .directory)
    (hs : v.get? source = some (.file content time))
    (hi : w.get? source = some (.file content time)) :
    ∃ x, v.copyAt source target = (x, none) ∧ Copied w v x source target ignores := by
  have hne : target ≠ [] := by
    rintro rfl
    cases hf
  have hput : v.copyAt source target = (v.put target (.file content time), none) := by
    rw [copyAt]
    simp only [hs]
  have hrooted : (v.put target (.file content time)).Rooted :=
    hv.put hne hn hd fun h => by cases hf.symm.trans h
  refine ⟨_, hput, hrooted, fun rel => ?_, fun l hl => ?_⟩
  · by_cases hnil : rel = []
    · rw [hnil, List.append_nil, List.append_nil, hi, get?_put v _ hne, if_pos rfl, keeps,
        if_pos rfl]
    · rw [get?_put v _ hne, if_neg (by simp [hnil]), hv.none_below hf, hw.none_below_file hi hnil,
        ite_self]
  · rw [get?_put v _ hne, if_neg]
    rintro rfl
    exact hl (List.prefix_refl _)

def copyEntry (ignores : Ignores) (levels : Nat) (source target : Location) (u : FileTree)
    (e : Text × Entry) : FileTree × Option CopyFault :=
  match e.2 with
  | .directory => copyWithin ignores levels (source ++ [e.1]) (target ++ [e.1]) u
  | .file .. => u.copyAt (source ++ [e.1]) (target ++ [e.1])

theorem copyWithin_succ (levels : Nat) (source target : Location) (t : FileTree) :
    copyWithin ignores (levels + 1) source target t =
      match t.listing source with
      | .error e => (t, some (.file e))
      | .ok found =>
        match t.makeWay target with
        | .error e => (t, some (.file e))
        | .ok u => inTurn (copyEntry ignores levels source target) u
            (found.filter fun e => !ignores source e.1) := rfl

theorem inTurn_copied (hw : w.Rooted) (h : Apart w u source target ignores)
    {es : List (Text × Entry)}
    (hlevels : ∀ name v, Ready w v (source ++ [name]) (target ++ [name]) ignores →
      ∃ x, copyWithin ignores levels (source ++ [name]) (target ++ [name]) v = (x, none) ∧
        Copied w v x (source ++ [name]) (target ++ [name]) ignores)
    (hes : ∀ f ∈ es, w.get? (source ++ [f.1]) = some f.2 ∧ ignores source f.1 = false)
    (hnodup : (es.map Prod.fst).Nodup) (hv : Partly w u v source target ignores done)
    (hdone : ∀ f ∈ es, f.1 ∉ done) :
    ∃ x, inTurn (copyEntry ignores levels source target) v es = (x, none) ∧
      Partly w u x source target ignores ((es.map Prod.fst).reverse ++ done) := by
  -- the copy of one entry keeps what the others take along, and the places of their copies free
  induction es generalizing v done with
  | nil => exact ⟨v, rfl, hv⟩
  | cons f es ih =>
    obtain ⟨name, f⟩ := f
    rw [List.forall_mem_cons] at hes hdone
    rw [List.map_cons, List.nodup_cons] at hnodup
    obtain ⟨⟨hf, hi⟩, hes⟩ := hes
    have hentry := h.entry hw hv hi hf
    have hfree := hv.free hdone.1
    have hparent : v.get? (target ++ [name]).dropLast = some .directory := by
      rw [List.dropLast_concat, hv.place]
    have hone : ∃ x, copyEntry ignores levels source target v (name, f) = (x, none) ∧
        Copied w v x (source ++ [name]) (target ++ [name]) ignores := by
      cases f with
      | directory => exact hlevels name v ⟨hentry, hv.rooted, hf, hfree, hparent⟩
      | file c τ =>
        have hintact := hentry.intact [] rfl
        rw [List.append_nil] at hintact
        exact copyAt_copied hw hv.rooted hentry.names hfree hparent (hintact.trans hf) hf
    obtain ⟨x, hx, hcopied⟩ := hone
    have hlater : ∀ g ∈ es, g.1 ∉ name :: done := fun g hg hm =>
      (List.mem_cons.mp hm).elim (fun he => hnodup.1 (List.mem_map.mpr ⟨g, hg, he⟩))
        (hdone.2 g hg)
    obtain ⟨y, hy, hpartly⟩ := ih hes hnodup.2 (hv.next hi hcopied) hlater
    refine ⟨y, ?_, ?_⟩
    · rw [inTurn, hx]
      exact hy
    · simpa using hpartly

theorem Partly.copied (hw : w.Rooted) (hs : w.get? source = some .directory)
    (h : Partly w u v source target ignores done) (hdone : ∀ name, ignores source name = false →
      (w.get? (source ++ [name])).isSome = true → name ∈ done) :
    Copied w u v source target ignores where
  rooted := h.rooted
  below rel := by
    cases rel with
    | nil => rw [List.append_nil, List.append_nil, h.place, hs, keeps, if_pos rfl]
    | cons name rel =>
      rw [h.below]
      by_cases hk : keeps ignores source (name :: rel) = true
      · by_cases hm : name ∈ done
        · rw [if_pos ⟨hm, hk⟩, if_pos hk]
        · have hnone : w.get? (source ++ [name]) = none := by
            rw [← Option.not_isSome_iff_eq_none]
            exact fun hsome => hm (hdone name (keeps_cons.mp hk).1 hsome)
          rw [if_neg fun hand => hm hand.1, if_pos hk, List.append_cons, hw.none_below hnone]
      · rw [if_neg fun hand => hk hand.2, if_neg hk]
  outside := h.outside

theorem Apart.mem_listing (h : Apart w u source target ignores) (hu : u.Rooted) {f : Text × Entry} :
    f ∈ (u.childrenOf source).filter (fun e => !ignores source e.1) ↔
      w.get? (source ++ [f.1]) = some f.2 ∧ ignores source f.1 = false := by
  have hchild : f ∈ u.childrenOf source ↔ u.get? (source ++ [f.1]) = some f.2 :=
    WellFormed.mem_childrenOf (t := u.atRoot) hu
  rw [List.mem_filter, hchild, Bool.not_eq_true']
  exact and_congr_left fun hi => by rw [← h.intact [f.1] (keeps_cons.mpr ⟨hi, rfl⟩)]

theorem Rooted.nodup_listing (h : t.Rooted) (source : Location) (ignores : Ignores) :
    (((t.childrenOf source).filter fun e => !ignores source e.1).map Prod.fst).Nodup :=
  (WellFormed.nodup_childrenOf (t := t.atRoot) h source).sublist (List.filter_sublist.map _)

theorem copyWithin_copied (hw : w.Rooted) (h : Ready w u source target ignores)
    (hdeep : ∀ l, w.get? l = some .directory → l.length < source.length + levels) :
    ∃ v, copyWithin ignores levels source target u = (v, none) ∧
      Copied w u v source target ignores := by
  -- as many levels are left as directories of `w` can go further down, so none is entered at zero
  induction levels generalizing source target u with
  | zero => exact absurd (hdeep source h.directory) (Nat.lt_irrefl _)
  | succ levels ih =>
    have hlisting : u.listing source = .ok (u.childrenOf source) := by
      have hd : u.get? source = some .directory := by
        simpa [h.directory] using h.intact [] rfl
      rw [listing]
      simp only [hd]
    rw [copyWithin_succ]
    simp only [hlisting, h.rooted.makeWay h.free h.parent]
    have hlevels : ∀ name v, Ready w v (source ++ [name]) (target ++ [name]) ignores →
        ∃ x, copyWithin ignores levels (source ++ [name]) (target ++ [name]) v = (x, none) ∧
          Copied w v x (source ++ [name]) (target ++ [name]) ignores := fun name v hready =>
      ih hready fun l hl => by
        have hlength := hdeep l hl
        rw [List.length_append, List.length_singleton]
        omega
    obtain ⟨v, hv, hpartly⟩ := inTurn_copied hw h.toApart hlevels
      (fun f hf => (h.mem_listing h.rooted).mp hf) (h.rooted.nodup_listing source ignores) h.start
      fun f _ => List.not_mem_nil
    refine ⟨v, hv, hpartly.copied hw h.directory fun name hi hsome => ?_⟩
    obtain ⟨e, he⟩ := Option.isSome_iff_exists.mp hsome
    rw [List.append_nil, List.mem_reverse, List.mem_map]
    exact ⟨(name, e), (h.mem_listing h.rooted).mpr ⟨he, hi⟩, rfl⟩

theorem inTurn_congr {α : Type} {step step' : FileTree → α → FileTree × Option CopyFault}
    {as : List α} (hstep : ∀ u a, (step u a).2 ≠ some .endless → step' u a = step u a)
    (h : (inTurn step u as).2 ≠ some .endless) : inTurn step' u as = inTurn step u as := by
  induction as generalizing u with
  | nil => rfl
  | cons a as ih =>
    rw [inTurn] at h ⊢
    cases hs : step u a with
    | mk v e =>
      have hne : (step u a).2 ≠ some .endless := by
        rw [hs] at h ⊢
        cases e with
        | none => simp
        | some e => exact h
      rw [hs] at h
      rw [inTurn, hstep u a hne, hs]
      cases e with
      | none => exact ih h
      | some e => rfl

/-- Levels that a copy does not reach make no difference to it. -/
theorem copyWithin_mono (h : (copyWithin ignores levels source target t).2 ≠ some .endless)
    (more : Nat) : copyWithin ignores (levels + more) source target t =
      copyWithin ignores levels source target t := by
  induction levels generalizing source target t with
  | zero => exact absurd rfl h
  | succ levels ih =>
    rw [Nat.add_right_comm, copyWithin_succ]
    rw [copyWithin_succ] at h ⊢
    cases hl : t.listing source with
    | error e => rfl
    | ok found =>
      cases hw : t.makeWay target with
      | error e => rfl
      | ok u =>
        simp only [hl, hw] at h
        refine inTurn_congr (fun v f hne => ?_) h
        obtain ⟨name, e⟩ := f
        cases e with
        | directory => exact ih hne
        | file c τ => rfl

/-! ### Whole copies -/

theorem length_le_depth (h : t.get? l = some e) : l.length ≤ t.depth := by
  by_cases hl : l = []
  · rw [hl]
    exact Nat.zero_le _
  · have hm := mem_keys_of_get? hl h
    rw [depth]
    generalize t.entries = entries at hm
    induction entries with
    | nil => cases hm
    | cons f fs ih =>
      rw [List.map_cons, List.foldr_cons]
      rcases List.mem_cons.mp hm with rfl | hm
      · exact le_max_left _ _
      · exact (ih hm).trans (le_max_right _ _)

theorem copyTree_cases (t : FileTree) (source target : Location) (ignores : Ignores) :
    (∃ e, t.copyTree source target ignores = (t, some (.file e)) ∧
      ¬(t.get? source = some .directory ∧ ∃ w, t.makeWay target = .ok w)) ∨
    ∃ w, t.get? source = some .directory ∧ t.makeWay target = .ok w ∧
      t.copyTree source target ignores =
        inTurn (copyEntry ignores (max t.depth target.length) source target) w
          ((t.childrenOf source).filter fun e => !ignores source e.1) := by
  rw [copyTree, copyWithin_succ, listing]
  cases hs : t.get? source with
  | none => exact .inl ⟨_, rfl, fun h => by cases h.1⟩
  | some e =>
    cases e with
    | file c τ => exact .inl ⟨_, rfl, fun h => by cases h.1⟩
    | directory =>
      cases hw : t.makeWay target with
      | error e => exact .inl ⟨_, rfl, fun ⟨_, w, hw'⟩ => by cases hw'⟩
      | ok w => exact .inr ⟨w, rfl, rfl, rfl⟩

theorem Rooted.makeWay_extends (h : t.Rooted) (hn : ['.', '.'] ∉ target)
    (hw : t.makeWay target = .ok w) : t.atRoot.Extends w.atRoot target ∧
      w.get? target = some .directory ∧ ∀ rel, rel ≠ [] → w.get? (target ++ rel) = none := by
  obtain ⟨hf, hd⟩ := makeWay_ok hw
  have hx : t.atRoot.Extends w.atRoot ([] ++ target) := h.descend hn rfl hd
  refine ⟨hx, directory_of_descend rfl hd, fun rel hnil => ?_⟩
  have hlong : ¬target ++ rel <+: [] ++ target := fun hp => by
    have hlen := hp.length_le
    rw [List.nil_append, List.length_append] at hlen
    exact hnil (List.length_eq_zero_iff.mp (by omega))
  rcases hx.get? (target ++ rel) with hsame | ⟨-, -, hp⟩
  · exact hsame.trans (h.none_below hf rel)
  · exact absurd hp hlong

theorem length_le_of_extends (hx : t.atRoot.Extends w.atRoot target)
    (hl : w.get? l = some .directory) : l.length ≤ max t.depth target.length := by
  rcases hx.get? l with hsame | ⟨-, -, hp⟩
  · exact (length_le_depth (hsame.symm.trans hl)).trans (le_max_left _ _)
  · exact hp.length_le.trans (le_max_right _ _)

theorem Rooted.copyTree_made (h : t.Rooted) (hn : ['.', '.'] ∉ target)
    (hclear : ∀ rel, keeps ignores source rel = true → ¬target <+: source ++ rel)
    (hs : t.get? source = some .directory) (hw : t.makeWay target = .ok w) :
    ∃ u done, t.copyTree source target ignores = (u, none) ∧
      Partly w w u source target ignores done ∧
      ∀ name, ignores source name = false → (t.get? (source ++ [name])).isSome = true →
        name ∈ done := by
  obtain ⟨hx, hplace, hnone⟩ := h.makeWay_extends hn hw
  have hroot : w.Rooted := hx.wellFormed
  have hchild : ∀ f : Text × Entry,
      f ∈ (t.childrenOf source).filter (fun e => !ignores source e.1) ↔
        t.get? (source ++ [f.1]) = some f.2 ∧ ignores source f.1 = false := fun f =>
    Apart.mem_listing (w := t) ⟨hn, fun _ _ => rfl, hclear⟩ h
  have hstart : Partly w w w source target ignores [] := by
    refine ⟨hroot, hplace, fun name rel => ?_, fun l _ => rfl⟩
    rw [hnone _ (List.cons_ne_nil _ _)]
    simp
  have hlevels : ∀ name v, Ready w v (source ++ [name]) (target ++ [name]) ignores →
      ∃ x, copyWithin ignores (max t.depth target.length) (source ++ [name]) (target ++ [name]) v =
        (x, none) ∧ Copied w v x (source ++ [name]) (target ++ [name]) ignores :=
    fun name v hready => copyWithin_copied hroot hready fun l hl => by
      have hlength := length_le_of_extends hx hl
      rw [List.length_append, List.length_singleton]
      omega
  obtain ⟨u, hu, hpartly⟩ := inTurn_copied hroot ⟨hn, fun _ _ => rfl, hclear⟩ hlevels
    (fun f hf => ⟨hx.get?_of_eq_some ((hchild f).mp hf).1, ((hchild f).mp hf).2⟩)
    (h.nodup_listing source ignores) hstart fun f _ => List.not_mem_nil
  refine ⟨u, _, ?_, hpartly, fun name hi hsome => ?_⟩
  · rcases copyTree_cases t source target ignores with ⟨e, -, hno⟩ | ⟨w', -, hw', hrun⟩
    · exact absurd ⟨hs, w, hw⟩ hno
    · obtain rfl := Except.ok.inj (hw.symm.trans hw')
      exact hrun.trans hu
  · obtain ⟨e, he⟩ := Option.isSome_iff_exists.mp hsome
    rw [List.append_nil, List.mem_reverse, List.mem_map]
    exact ⟨(name, e), (hchild _).mpr ⟨he, hi⟩, rfl⟩

structure Copies (t u : FileTree) (source target : Location) (ignores : Ignores) : Prop where
  below : ∀ rel content time, u.get? (target ++ rel) = some (.file content time) ↔
    t.get? (source ++ rel) = some (.file content time) ∧ keeps ignores source rel = true
  outside : t.Spares u (target <+: ·)

theorem exists_makeWay (ht : t.get? target = none)
    (hway : ∀ l, l <+: target → t.get? l = none ∨ t.get? l = some .directory) :
    ∃ w, t.makeWay target = .ok w := by
  obtain ⟨w, hw⟩ : ∃ w, t.descend [] target = .ok w := descend_ok hway
  exact ⟨w, by rw [FileTree.makeWay, ht, hw]⟩

theorem Rooted.isSome_above (h : t.Rooted) (hg : t.get? (l ++ name :: rel) = some e) :
    (t.get? (l ++ [name])).isSome = true := by
  rw [List.append_cons] at hg
  by_cases hnil : rel = []
  · rw [hnil, List.append_nil] at hg
    rw [hg]
    rfl
  · rw [h.above hnil hg]
    rfl

theorem Rooted.copies (h : t.Rooted) (hn : ['.', '.'] ∉ target)
    (hclear : ∀ rel, keeps ignores source rel = true → ¬target <+: source ++ rel)
    (hs : t.get? source = some .directory) (hw : t.makeWay target = .ok w) :
    ∃ u, t.copyTree source target ignores = (u, none) ∧ t.Copies u source target ignores ∧
      (∀ l, l <+: target → u.get? l = some .directory) ∧
      ∀ rel, t.get? (source ++ rel) = some .directory → keeps ignores source rel = true →
        u.get? (target ++ rel) = some .directory := by
  obtain ⟨u, done, hu, hpartly, hdone⟩ := h.copyTree_made hn hclear hs hw
  obtain ⟨hx, hplace, -⟩ := h.makeWay_extends hn hw
  -- a name below the directory that was there before the way was made is done
  have hbelow : ∀ name rel e, t.get? (source ++ name :: rel) = some e →
      keeps ignores source (name :: rel) = true →
      u.get? (target ++ name :: rel) = w.get? (source ++ name :: rel) := by
    intro name rel e hg hk
    rw [hpartly.below, if_pos ⟨hdone name (keeps_cons.mp hk).1 (h.isSome_above hg), hk⟩]
  refine ⟨u, hu, ⟨fun rel c τ => ?_, fun l c τ hl => ?_⟩, fun l hl => ?_, fun rel hg hk => ?_⟩
  · cases rel with
    | nil => simp [hpartly.place, hs]
    | cons name rel =>
      constructor
      · intro hg
        rw [hpartly.below] at hg
        split at hg
        · next hand => exact ⟨hx.get?_of_file hg, hand.2⟩
        · cases hg
      · rintro ⟨hg, hk⟩
        rw [hbelow name rel _ hg hk]
        exact hx.get?_of_eq_some hg
  · rw [hpartly.outside l hl]
    exact ⟨hx.get?_of_file, hx.get?_of_eq_some⟩
  · by_cases hself : target <+: l
    · rw [hl.eq_of_length_le hself.length_le, hpartly.place]
    · obtain ⟨rest, rfl⟩ := hl
      have hnil : rest ≠ [] := by
        rintro rfl
        rw [List.append_nil] at hself
        exact hself (List.prefix_refl _)
      rw [hpartly.outside l hself]
      exact Rooted.above hx.wellFormed hnil hplace
  · cases rel with
    | nil => rw [List.append_nil, hpartly.place]
    | cons name rel =>
      rw [hbelow name rel _ hg hk]
      exact hx.get?_of_eq_some hg

theorem Rooted.copyTree (h : t.Rooted) (hn : ['.', '.'] ∉ target)
    (hclear : ∀ rel, keeps ignores source rel = true → ¬target <+: source ++ rel) :
    (∃ e, t.copyTree source target ignores = (t, some (.file e)) ∧
      ¬(t.get? source = some .directory ∧ ∃ w, t.makeWay target = .ok w)) ∨
    ∃ u w, t.get? source = some .directory ∧ t.makeWay target = .ok w ∧
      t.copyTree source target ignores = (u, none) ∧ t.Copies u source target ignores ∧
      (∀ l, l <+: target → u.get? l = some .directory) ∧
      ∀ rel, t.get? (source ++ rel) = some .directory → keeps ignores source rel = true →
        u.get? (target ++ rel) = some .directory := by
  rcases copyTree_cases t source target ignores with hfault | ⟨w, hs, hw, -⟩
  · exact .inl hfault
  · obtain ⟨u, hu⟩ := h.copies hn hclear hs hw
    exact .inr ⟨u, w, hs, hw, hu⟩

/-- Nothing is ignored, and the place of the copy lies below a directory that is there. -/
example : (copyTree { entries := [(["w"], .directory), (["w", "a"], .directory)] } ["w"]
    ["w", "a", "o"] fun _ _ => false).2 = some .endless := by
  decide +kernel

end Coursework.FileTree
