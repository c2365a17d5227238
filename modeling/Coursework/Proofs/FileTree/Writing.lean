import Coursework.Proofs.FileTree.WellFormed

namespace Coursework.FileTree

variable {t u v : FileTree} {p q : Path} {l m : Location} {content : Utf8.Bytes} {time : Int}

/-! ### Files -/

theorem readBytes_iff : t.readBytes p = .ok content ↔
    p.hasNull = false ∧ ∃ l τ, t.locate p = .ok l ∧ t.get? l = some (.file content τ) := by
  rw [readBytes]
  by_cases hn : p.hasNull = true
  · simp [hn]
  · simp only [Bool.not_eq_true] at hn
    cases hl : t.locate p with
    | error o => simp [hn]
    | ok l =>
      cases hg : t.get? l with
      | none => simp [hn, hg]
      | some e => cases e <;> simp [hn, hg, eq_comm]

theorem writeBytes_iff : t.writeBytes p content time = .ok u ↔ p.hasNull = false ∧
    ∃ l, t.locate p = .ok l ∧ t.get? l ≠ some .directory ∧ u = t.put l (.file content time) := by
  rw [writeBytes]
  by_cases hn : p.hasNull = true
  · simp [hn]
  · simp only [Bool.not_eq_true] at hn
    cases hl : t.locate p with
    | error o => simp [hn]
    | ok l =>
      cases hg : t.get? l with
      | none => simp [hn, hg, eq_comm]
      | some e => cases e <;> simp [hn, hg, eq_comm]

theorem WellFormed.readBytes_eq_ok_iff (h : t.WellFormed) (hp : p.Descends) :
    t.readBytes p = .ok content ↔
      p.hasNull = false ∧ ∃ τ, t.get? (t.landing p) = some (.file content τ) := by
  rw [readBytes_iff]
  apply and_congr_right
  intro
  constructor
  · rintro ⟨l, τ, hl, hg⟩
    obtain ⟨rfl, -⟩ := (h.locate_eq_ok_iff hp).mp hl
    exact ⟨τ, hg⟩
  · rintro ⟨τ, hg⟩
    exact ⟨_, τ, h.locate_of_get? hp hg, hg⟩

theorem WellFormed.writeBytes_eq_ok_iff (h : t.WellFormed) (hp : p.Descends) :
    t.writeBytes p content time = .ok u ↔ p.hasNull = false ∧
      (p.parts ≠ [] → t.get? (t.landing p.parent) = some .directory) ∧
      t.get? (t.landing p) ≠ some .directory ∧ u = t.put (t.landing p) (.file content time) := by
  rw [writeBytes_iff]
  apply and_congr_right
  intro
  constructor
  · rintro ⟨l, hl, hne, hu⟩
    obtain ⟨rfl, hd⟩ := (h.locate_eq_ok_iff hp).mp hl
    exact ⟨hd, hne, hu⟩
  · rintro ⟨hd, hne, hu⟩
    exact ⟨_, (h.locate_eq_ok_iff hp).mpr ⟨rfl, hd⟩, hne, hu⟩

theorem WellFormed.parts_ne_nil (h : t.WellFormed) (hg : t.get? (t.landing p) ≠ some .directory) :
    p.parts ≠ [] := by
  intro hn
  rw [landing, hn, List.append_nil, base] at hg
  split at hg
  · exact hg h.here
  · exact hg rfl

theorem WellFormed.writeBytes (h : t.WellFormed) (hp : p.Descends)
    (hw : t.writeBytes p content time = .ok u) : u.WellFormed := by
  obtain ⟨-, hd, hne, rfl⟩ := (h.writeBytes_eq_ok_iff hp).mp hw
  have hparts := h.parts_ne_nil hne
  refine h.put ?_ (h.descends_landing hp) ?_ fun hg => absurd hg hne
  · intro hnil
    rw [hnil] at hne
    exact hne rfl
  · rw [← landing_parent hparts]
    exact hd hparts

theorem landing_ne_nil (hg : t.get? (t.landing p) ≠ some .directory) :
    t.landing p ≠ [] := by
  intro hnil
  rw [hnil] at hg
  exact hg rfl

theorem put_put (t : FileTree) (l : Location) (e f : Entry) : (t.put l e).put l f = t.put l f := by
  rw [put, put, put, Keyed.set_set]

/-! ### Directories -/

structure Extends (t u : FileTree) (l : Location) : Prop where
  wellFormed : u.WellFormed
  place : u.place = t.place
  get? : ∀ m, u.get? m = t.get? m ∨ (t.get? m = none ∧ u.get? m = some .directory ∧ m <+: l)

theorem WellFormed.extends_self (h : t.WellFormed) (l : Location) : t.Extends t l :=
  ⟨h, rfl, fun _ => .inl rfl⟩

theorem Extends.trans (h : t.Extends u l) (k : u.Extends v m) (hl : l <+: m) : t.Extends v m where
  wellFormed := k.wellFormed
  place := k.place.trans h.place
  get? n := by
    rcases k.get? n with hk | ⟨hk, hk', hn⟩
    · rw [hk]
      rcases h.get? n with hh | ⟨hh, hh', hn⟩
      · exact .inl hh
      · exact .inr ⟨hh, hh', hn.trans hl⟩
    · rcases h.get? n with hh | ⟨hh, hh', -⟩
      · exact .inr ⟨hh ▸ hk, hk', hn⟩
      · rw [hh'] at hk
        cases hk

theorem Extends.get?_of_eq_some (h : t.Extends u l) {e : Entry} (he : t.get? m = some e) :
    u.get? m = some e := by
  rcases h.get? m with hm | ⟨hm, -, -⟩
  · rw [hm, he]
  · rw [hm] at he
    cases he

theorem Extends.get?_of_file (h : t.Extends u l) (he : u.get? m = some (.file content time)) :
    t.get? m = some (.file content time) := by
  rcases h.get? m with hm | ⟨-, hm, -⟩
  · rw [← hm, he]
  · rw [hm] at he
    cases he

theorem WellFormed.makeDirectory_eq_ok_iff (h : t.WellFormed) (hp : p.Descends) :
    t.makeDirectory p = .ok u ↔ p.hasNull = false ∧
      (p.parts ≠ [] → t.get? (t.landing p.parent) = some .directory) ∧
      t.get? (t.landing p) = none ∧ u = t.put (t.landing p) .directory := by
  rw [makeDirectory]
  by_cases hn : p.hasNull = true
  · simp [hn]
  · rw [if_neg hn]
    simp only [Bool.not_eq_true] at hn
    cases hl : t.locate p with
    | error o =>
      simp only [hn, reduceCtorEq, true_and, false_iff, not_and]
      intro hd
      rw [(h.locate_eq_ok_iff hp).mpr ⟨rfl, hd⟩] at hl
      cases hl
    | ok l =>
      obtain ⟨rfl, hd⟩ := (h.locate_eq_ok_iff hp).mp hl
      cases hg : t.get? (t.landing p) with
      | none =>
        simp only [hn, hg, true_and]
        exact ⟨fun hk => ⟨hd, (Except.ok.inj hk).symm⟩, fun hk => by rw [hk.2]⟩
      | some e => simp [hg]

theorem WellFormed.makeDirectory (h : t.WellFormed) (hp : p.Descends)
    (hm : t.makeDirectory p = .ok u) :
    t.Extends u (t.landing p) ∧ u.get? (t.landing p) = some .directory := by
  obtain ⟨-, hd, hnone, rfl⟩ := (h.makeDirectory_eq_ok_iff hp).mp hm
  have hne : t.get? (t.landing p) ≠ some .directory := by simp [hnone]
  have hparts := h.parts_ne_nil hne
  have hnil := landing_ne_nil hne
  refine ⟨⟨h.put hnil (h.descends_landing hp) ?_ fun _ => rfl, rfl, fun m => ?_⟩, ?_⟩
  · rw [← landing_parent hparts]
    exact hd hparts
  · rw [get?_put _ _ hnil]
    split
    · next hm => exact .inr ⟨hm ▸ hnone, rfl, hm ▸ List.prefix_refl _⟩
    · exact .inl rfl
  · rw [get?_put _ _ hnil, if_pos rfl]

theorem isPrefix_landing_parent (t : FileTree) (p : Path) : t.landing p.parent <+: t.landing p :=
  List.prefix_append_right_inj _ |>.mpr (List.dropLast_prefix _)

theorem hasDirectory_iff (h : t.WellFormed) (hp : p.Descends) :
    t.hasDirectory p = true ↔ t.get? (t.landing p) = some .directory := by
  rw [hasDirectory, h.entry_eq hp]
  cases t.get? (t.landing p) with
  | none => simp
  | some e => cases e <;> simp [Entry.isDirectory]

theorem WellFormed.ensureDirectory (h : t.WellFormed) (hp : p.Descends) :
    t.Extends (t.ensureDirectory p).1 (t.landing p) ∧ ((t.ensureDirectory p).2 = none →
      (t.ensureDirectory p).1.get? (t.landing p) = some .directory) := by
  rw [FileTree.ensureDirectory]
  cases hm : t.makeDirectory p with
  | ok u =>
    obtain ⟨hx, hd⟩ := h.makeDirectory hp hm
    exact ⟨hx, fun _ => hd⟩
  | error e =>
    refine ⟨h.extends_self _, fun hn => ?_⟩
    have hdir : t.hasDirectory p = true := by
      by_contra hd
      cases e <;> simp [hd] at hn
    exact (hasDirectory_iff h hp).mp hdir

theorem WellFormed.ensureDirectoriesWithin (h : t.WellFormed) (hp : p.Descends) (levels : Nat) :
    t.Extends (t.ensureDirectoriesWithin levels p).1 (t.landing p) ∧
      ((t.ensureDirectoriesWithin levels p).2 = none →
        (t.ensureDirectoriesWithin levels p).1.get? (t.landing p) = some .directory) := by
  -- a missing parent is made with one level less, and then the directory itself is tried again
  induction levels generalizing p with
  | zero => exact h.ensureDirectory hp
  | succ levels ih =>
    rw [FileTree.ensureDirectoriesWithin]
    cases hm : t.makeDirectory p with
    | ok u =>
      obtain ⟨hx, hd⟩ := h.makeDirectory hp hm
      exact ⟨hx, fun _ => hd⟩
    | error e =>
      have hfound : ∀ o,
          (if t.hasDirectory p = true then none else some o) = (none : Option FileFault) →
          t.get? (t.landing p) = some .directory := by
        intro o ho
        split at ho
        · next hd => exact (hasDirectory_iff h hp).mp hd
        · cases ho
      cases e with
      | missing q =>
        by_cases hnil : p.parts = []
        · simp only [hnil, if_true]
          exact ⟨h.extends_self _, fun hn => by cases hn⟩
        · simp only [hnil, if_false]
          obtain ⟨hx, -⟩ := ih hp.parent
          cases hr : t.ensureDirectoriesWithin levels p.parent with
          | mk u o =>
            rw [hr] at hx
            cases o with
            | none =>
              have hu := hx.wellFormed.ensureDirectory hp
              rw [landing_congr hx.place] at hu
              exact ⟨hx.trans hu.1 (isPrefix_landing_parent t p), hu.2⟩
            | some e =>
              exact ⟨hx.trans (hx.wellFormed.extends_self _) (isPrefix_landing_parent t p),
                fun hn => by cases hn⟩
      | _ => exact ⟨h.extends_self _, hfound _⟩

theorem WellFormed.ensureDirectories (h : t.WellFormed) (hp : p.Descends) :
    t.Extends (t.ensureDirectories p).1 (t.landing p) ∧ ((t.ensureDirectories p).2 = none →
      (t.ensureDirectories p).1.get? (t.landing p) = some .directory) :=
  h.ensureDirectoriesWithin hp _

theorem follow_missing {here names : List Text} {o : Obstacle} (hn : ['.', '.'] ∉ names)
    (hf : ∀ m, m <+: names → ∀ c τ, t.get? (here ++ m) ≠ some (.file c τ))
    (h : t.follow here names = .error o) : o = .missing := by
  induction names generalizing here with
  | nil => cases h
  | cons name names ih =>
    rw [List.mem_cons, not_or] at hn
    rw [follow] at h
    split at h
    · exact (Except.error.inj h).symm
    · next c τ hg => exact absurd (by simpa using hg) (hf [] (by simp) c τ)
    · rw [if_neg (Ne.symm hn.1)] at h
      refine ih hn.2 (fun m hm => ?_) h
      have := hf (name :: m) (by simpa using hm)
      simpa using this

theorem follow_append (t : FileTree) (here as bs : List Text) :
    t.follow here (as ++ bs) = (t.follow here as).bind fun l => t.follow l bs := by
  induction as generalizing here with
  | nil => rfl
  | cons a as ih =>
    rw [List.cons_append, follow, follow]
    split
    · rfl
    · rfl
    · exact ih _

theorem WellFormed.makeDirectory_error (h : t.WellFormed) (hp : p.Descends) (hn : p.hasNull = false)
    (hf : ∀ c τ, t.get? (t.landing p) ≠ some (.file c τ)) {e : FileFault}
    (he : t.makeDirectory p = .error e) : (e = .present p ∧ t.hasDirectory p = true) ∨
      ∃ o, t.locate p = .error o ∧ e = o.fault p := by
  rw [FileTree.makeDirectory, if_neg (by simp [hn])] at he
  cases hl : t.locate p with
  | error o =>
    rw [hl] at he
    exact .inr ⟨o, rfl, (Except.error.inj he).symm⟩
  | ok l =>
    obtain ⟨rfl, -⟩ := (h.locate_eq_ok_iff hp).mp hl
    rw [hl] at he
    left
    rw [hasDirectory_iff h hp]
    cases hg : t.get? (t.landing p) with
    | none => simp [hg] at he
    | some f =>
      cases f with
      | file c τ => exact absurd hg (hf c τ)
      | directory =>
        simp only [hg] at he
        exact ⟨(Except.error.inj he).symm, rfl⟩

theorem WellFormed.ensureDirectory_below (h : t.WellFormed) (hp : p.Descends)
    (hn : p.hasNull = false) (hf : ∀ c τ, t.get? (t.landing p) ≠ some (.file c τ))
    (hd : t.get? (t.landing p.parent) = some .directory) : (t.ensureDirectory p).2 = none := by
  rw [FileTree.ensureDirectory]
  cases hm : t.makeDirectory p with
  | ok u => rfl
  | error e =>
    rcases h.makeDirectory_error hp hn hf hm with ⟨rfl, hdir⟩ | ⟨o, hl, -⟩
    · simp [hdir]
    · rw [(h.locate_eq_ok_iff hp).mpr ⟨rfl, fun _ => hd⟩] at hl
      cases hl

theorem hasNull_under {rel : List Text} (hn : (q.under rel).hasNull = false) {m : List Text}
    (hm : m <+: rel) : (q.under m).hasNull = false := by
  obtain ⟨r, rfl⟩ := hm
  rw [← Path.under_under, Path.hasNull, Path.under] at hn
  simp only [List.any_append, Bool.or_eq_false_iff] at hn
  exact hn.1

theorem hasDirectory_eq_true_iff :
    t.hasDirectory p = true ↔ ∃ l, t.locate p = .ok l ∧ t.get? l = some .directory := by
  rw [hasDirectory, entry]
  cases t.locate p with
  | error o => simp
  | ok l =>
    cases hg : t.get? l with
    | none => simp [hg]
    | some e => cases e <;> simp [hg, Entry.isDirectory]

theorem makeDirectory_present (hd : t.hasDirectory p = true) :
    ∃ e, t.makeDirectory p = .error e ∧ ∀ q, e ≠ .missing q := by
  obtain ⟨l, hl, hg⟩ := hasDirectory_eq_true_iff.mp hd
  by_cases hn : p.hasNull = true
  · exact ⟨.nullCharacter, by simp [makeDirectory, hn], by simp⟩
  · exact ⟨.present p, by simp [makeDirectory, hn, hl, hg], by simp⟩

theorem ensureDirectoriesWithin_present (hd : t.hasDirectory p = true) (levels : Nat) :
    t.ensureDirectoriesWithin levels p = (t, none) := by
  obtain ⟨e, hm, hmissing⟩ := makeDirectory_present hd
  cases levels with
  | zero =>
    rw [FileTree.ensureDirectoriesWithin, FileTree.ensureDirectory, hm]
    cases e with
    | missing q => exact absurd rfl (hmissing q)
    | _ => simp [hd]
  | succ levels =>
    rw [FileTree.ensureDirectoriesWithin, hm]
    cases e with
    | missing q => exact absurd rfl (hmissing q)
    | _ => simp [hd]

theorem WellFormed.locate_under (h : t.WellFormed) (hl : t.locate p = .ok l) {rel : List Text}
    (hr : ['.', '.'] ∉ rel) (hne : rel ≠ []) {e : Entry} (hg : t.get? (l ++ rel) = some e) :
    t.locate (p.under rel) = .ok (l ++ rel) := by
  have hd := h.above_dropLast hg
  rw [List.dropLast_append_of_ne_nil hne] at hd
  have hrest := h.follow hr fun _ => hd
  rw [locate] at hl ⊢
  rw [Path.under, follow_append, hl]
  exact hrest

theorem WellFormed.locate_missing (h : t.WellFormed) {rel : List Text} {o : Obstacle}
    (hp : (q.under rel).Descends) (hq : t.get? (t.landing q) = some .directory)
    (hf : ∀ m, m <+: rel → ∀ c τ, t.get? (t.landing q ++ m) ≠ some (.file c τ))
    (ho : t.locate (q.under rel) = .error o) : o = .missing := by
  have hqd : q.Descends := fun hm => hp (List.mem_append_left _ hm)
  have hlq : t.follow (if q.anchor = .here then t.place else []) q.parts = .ok (t.landing q) :=
    h.locate_of_get? hqd hq
  rw [locate, Path.under, follow_append, hlq] at ho
  exact follow_missing (fun hm => hp (List.mem_append_right _ hm)) hf ho

theorem WellFormed.ensureDirectoriesWithin_under (h : t.WellFormed) {rel : List Text}
    (hp : (q.under rel).Descends) (hn : (q.under rel).hasNull = false)
    (hq : t.get? (t.landing q) = some .directory)
    (hf : ∀ m, m <+: rel → ∀ c τ, t.get? (t.landing q ++ m) ≠ some (.file c τ)) {levels : Nat}
    (hl : rel.length ≤ levels) : (t.ensureDirectoriesWithin levels (q.under rel)).2 = none := by
  induction rel using List.reverseRecOn generalizing levels with
  | nil =>
    rw [Path.under_nil] at hp hn ⊢
    rw [ensureDirectoriesWithin_present ((hasDirectory_iff h hp).mpr hq)]
  | append_singleton rel name ih =>
    have hfile : ∀ c τ, t.get? (t.landing (q.under (rel ++ [name]))) ≠ some (.file c τ) := by
      rw [landing_under]
      exact hf _ (List.prefix_refl _)
    cases levels with
    | zero => simp at hl
    | succ levels =>
      rw [FileTree.ensureDirectoriesWithin]
      cases hm : t.makeDirectory (q.under (rel ++ [name])) with
      | ok u => rfl
      | error e =>
        rcases h.makeDirectory_error hp hn hfile hm with ⟨rfl, hdir⟩ | ⟨o, ho, rfl⟩
        · simp [hdir]
        · obtain rfl := h.locate_missing hp hq hf ho
          have hparent := Path.parent_under_concat q rel name
          have hpre : rel <+: rel ++ [name] := List.prefix_append _ _
          have hpd : (q.under rel).Descends := hparent ▸ hp.parent
          have hne : (q.under (rel ++ [name])).parts ≠ [] := by simp [Path.under]
          have hrec : (t.ensureDirectoriesWithin levels (q.under rel)).2 = none :=
            ih hpd (hasNull_under hn hpre) (fun m hm => hf m (hm.trans hpre)) (by simpa using hl)
          obtain ⟨hx, hd⟩ := h.ensureDirectoriesWithin hpd levels
          have hd := hd hrec
          simp only [Obstacle.fault, if_neg hne, hparent]
          cases hr : t.ensureDirectoriesWithin levels (q.under rel) with
          | mk u o =>
            rw [hr] at hrec hx hd
            obtain rfl : o = none := hrec
            refine hx.wellFormed.ensureDirectory_below hp hn (fun c τ hg => ?_) ?_
            · rw [landing_congr hx.place] at hg
              exact hfile c τ (hx.get?_of_file hg)
            · rw [landing_congr hx.place, hparent]
              exact hd

theorem WellFormed.ensureDirectories_under (h : t.WellFormed) {rel : List Text}
    (hp : (q.under rel).Descends) (hn : (q.under rel).hasNull = false)
    (hq : t.get? (t.landing q) = some .directory)
    (hf : ∀ m, m <+: rel → ∀ c τ, t.get? (t.landing q ++ m) ≠ some (.file c τ)) :
    (t.ensureDirectories (q.under rel)).2 = none := by
  apply h.ensureDirectoriesWithin_under hp hn hq hf
  simp only [Path.under, List.length_append]
  omega

theorem WellFormed.ensureDirectories_free (h : t.WellFormed) (hp : p.Descends)
    (hn : p.hasNull = false)
    (hf : ∀ m, m <+: t.landing p → ∀ c τ, t.get? m ≠ some (.file c τ)) :
    (t.ensureDirectories p).2 = none := by
  have hroot : (⟨p.anchor, []⟩ : Path).under p.parts = p := rfl
  have hbase : t.get? (t.landing ⟨p.anchor, []⟩) = some .directory := by
    by_contra hne
    exact h.parts_ne_nil hne rfl
  rw [← hroot] at hp hn ⊢
  apply h.ensureDirectories_under hp hn hbase
  intro m hm
  apply hf
  rw [landing, landing, List.append_nil]
  exact (List.prefix_append_right_inj _).mpr hm

theorem WellFormed.ensureDirectories_again (h : t.WellFormed) (hp : p.Descends)
    (hn : p.hasNull = false) {e : FileFault} (he : t.ensureDirectories p = (u, some e)) :
    (u.ensureDirectories p).2 ≠ none := by
  intro hnone
  have hx := (h.ensureDirectories hp).1
  rw [he] at hx
  obtain ⟨hy, hd⟩ := hx.wellFormed.ensureDirectories hp
  have hd := hd hnone
  rw [landing_congr hx.place] at hd
  -- a file on the way would be in the way again
  have hfree : ∀ m, m <+: t.landing p → ∀ c τ, t.get? m ≠ some (.file c τ) := by
    rintro m ⟨m', hm⟩ c τ hg
    have hg' := hy.get?_of_eq_some (hx.get?_of_eq_some hg)
    rw [← hm] at hd
    by_cases hnil : m' = []
    · rw [hnil, List.append_nil, hg'] at hd
      cases hd
    · rw [hy.wellFormed.above hnil hd] at hg'
      cases hg'
  have hok := h.ensureDirectories_free hp hn hfree
  rw [he] at hok
  cases hok

theorem ensureDirectories_of_hasNull (hn : p.hasNull = true) :
    t.ensureDirectories p = (t, if t.hasDirectory p then none else some .nullCharacter) := by
  have hm : t.makeDirectory p = .error .nullCharacter := by rw [makeDirectory, if_pos hn]
  rw [FileTree.ensureDirectories, FileTree.ensureDirectoriesWithin, hm]

/-! ### Trees with more directories -/

theorem follow_mono (hd : ∀ m, t.get? m = some .directory → u.get? m = some .directory)
    {here names : List Text} (h : t.follow here names = .ok l) : u.follow here names = .ok l := by
  induction names generalizing here with
  | nil => exact h
  | cons name names ih =>
    rw [follow] at h ⊢
    split at h
    · cases h
    · cases h
    · next hg =>
      rw [hd _ hg]
      exact ih h

theorem locate_mono (hd : ∀ m, t.get? m = some .directory → u.get? m = some .directory)
    (hp : u.place = t.place) (h : t.locate p = .ok l) : u.locate p = .ok l := by
  rw [locate] at h ⊢
  rw [hp]
  exact follow_mono hd h

theorem locate_put {e : Entry} (hne : t.get? m ≠ some .directory) (h : t.locate p = .ok l) :
    (t.put m e).locate p = .ok l := by
  have hm : m ≠ [] := by
    rintro rfl
    exact hne rfl
  apply locate_mono _ (place_put t m e) h
  intro n hn
  rw [get?_put t e hm, if_neg]
  · exact hn
  · rintro rfl
    exact hne hn

theorem written_at (hw : t.writeBytes p content time = .ok u) : ∃ l, t.locate p = .ok l ∧
    u.locate p = .ok l ∧ u.get? l = some (.file content time) ∧ p.hasNull = false := by
  obtain ⟨hn, l, hl, hne, rfl⟩ := writeBytes_iff.mp hw
  have hnil : l ≠ [] := by
    rintro rfl
    exact hne rfl
  exact ⟨l, hl, locate_put hne hl, (get?_put t _ hnil).trans (if_pos rfl), hn⟩

theorem readBytes_written (hw : t.writeBytes p content time = .ok u) :
    u.readBytes p = .ok content := by
  obtain ⟨l, -, hl, hg, hn⟩ := written_at hw
  exact readBytes_iff.mpr ⟨hn, l, time, hl, hg⟩

theorem writeBytes_written (hw : t.writeBytes p content time = .ok u) (c : Utf8.Bytes) (τ : Int) :
    u.writeBytes p c τ = t.writeBytes p c τ ∧ ∃ v, t.writeBytes p c τ = .ok v := by
  obtain ⟨l, -, hlu, hg, -⟩ := written_at hw
  obtain ⟨hn, m, hm, hne, rfl⟩ := writeBytes_iff.mp hw
  obtain rfl := Except.ok.inj ((locate_put hne hm).symm.trans hlu)
  have ht : t.writeBytes p c τ = .ok (t.put m (.file c τ)) :=
    writeBytes_iff.mpr ⟨hn, m, hm, hne, rfl⟩
  refine ⟨?_, _, ht⟩
  rw [ht]
  refine writeBytes_iff.mpr ⟨hn, m, hlu, ?_, (put_put t m _ _).symm⟩
  rw [hg]
  simp

theorem Extends.locate (h : t.Extends u m) (hl : t.locate p = .ok l) : u.locate p = .ok l :=
  locate_mono (fun _ hd => h.get?_of_eq_some hd) h.place hl

theorem entry_eq_some_iff {e : Entry} :
    t.entry p = some e ↔ ∃ l, t.locate p = .ok l ∧ t.get? l = some e := by
  rw [entry]
  cases t.locate p with
  | error o => simp
  | ok l => simp

theorem Extends.entry (h : t.Extends u m) {e : Entry} (he : t.entry p = some e) :
    u.entry p = some e := by
  obtain ⟨l, hl, hg⟩ := entry_eq_some_iff.mp he
  exact entry_eq_some_iff.mpr ⟨l, h.locate hl, h.get?_of_eq_some hg⟩

theorem Extends.entry_below (h : t.WellFormed) (hp : p.Descends)
    (hx : t.Extends u (t.landing p.parent)) : u.entry p = t.entry p := by
  rw [h.entry_eq hp, hx.wellFormed.entry_eq hp, landing_congr hx.place]
  rcases hx.get? (t.landing p) with hg | ⟨hg, -, hpre⟩
  · exact hg
  · have hne : t.get? (t.landing p) ≠ some .directory := by simp [hg]
    have hparts := h.parts_ne_nil hne
    have hlen := hpre.length_le
    rw [landing_parent hparts, List.length_dropLast] at hlen
    have hpos := List.length_pos_iff.mpr (landing_ne_nil hne)
    omega

theorem readBytes_of_entry {τ : Int} (he : t.entry p = some (.file content τ)) {c : Utf8.Bytes}
    (hr : t.readBytes p = .ok c) : c = content := by
  obtain ⟨l, hl, hg⟩ := entry_eq_some_iff.mp he
  rw [readBytes] at hr
  split at hr
  · cases hr
  · rw [hl] at hr
    simp only [hg, Except.ok.injEq] at hr
    exact hr.symm

theorem writeBytes_error {e : FileFault} (h : t.writeBytes p content time = .error e)
    (c : Utf8.Bytes) (τ : Int) : t.writeBytes p c τ = .error e := by
  rw [FileTree.writeBytes] at h ⊢
  split at h
  · next hn => rw [if_pos hn, h]
  · next hn =>
    rw [if_neg hn]
    split at h
    · exact h
    · split at h
      · exact h
      · cases h

/-! ### Texts -/

theorem hasDirectory_of_makeDirectory (h : t.makeDirectory p = .ok u) :
    u.hasDirectory p = true := by
  rw [makeDirectory] at h
  split at h
  · cases h
  · split at h
    · cases h
    · next l hl =>
      split at h
      · cases h
      · next hnone =>
        have hfree : t.get? l ≠ some .directory := by simp [hnone]
        have hne : l ≠ [] := by
          rintro rfl
          cases hnone
        rw [← Except.ok.inj h, hasDirectory_eq_true_iff]
        exact ⟨l, locate_put hfree hl, by rw [get?_put _ _ hne, if_pos rfl]⟩

theorem hasDirectory_of_ensureDirectory (h : t.ensureDirectory p = (u, none)) :
    u.hasDirectory p = true := by
  rw [ensureDirectory] at h
  split at h
  · next v hv =>
    obtain rfl := (Prod.mk.inj h).1
    exact hasDirectory_of_makeDirectory hv
  · obtain ⟨rfl, he⟩ := Prod.mk.inj h
    split at he
    · cases he
    · split at he
      · assumption
      · cases he

theorem hasDirectory_of_ensureDirectories (h : t.ensureDirectories p = (u, none)) :
    u.hasDirectory p = true := by
  rw [ensureDirectories] at h
  cases hlevels : p.parts.length + 1 with
  | zero => omega
  | succ levels =>
    rw [hlevels, ensureDirectoriesWithin] at h
    split at h
    · next v hv =>
      obtain rfl := (Prod.mk.inj h).1
      exact hasDirectory_of_makeDirectory hv
    · split at h
      · cases (Prod.mk.inj h).2
      · split at h
        · exact hasDirectory_of_ensureDirectory h
        · cases (Prod.mk.inj h).2
    · obtain ⟨rfl, he⟩ := Prod.mk.inj h
      split at he
      · assumption
      · cases he

theorem ensureDirectories_present (h : t.hasDirectory p = true) :
    t.ensureDirectories p = (t, none) :=
  ensureDirectoriesWithin_present h _

theorem hasDirectory_of_hasPath_child {name : Text} (h : t.hasPath (p.child name) = true) :
    t.hasDirectory p = true := by
  rw [hasPath, Option.isSome_iff_exists] at h
  obtain ⟨e, he⟩ := h
  obtain ⟨l, hl, -⟩ := entry_eq_some_iff.mp he
  have hfollow : (t.locate p).bind (fun m => t.follow m [name]) = .ok l := by
    rw [← hl, locate, locate]
    exact (follow_append t _ p.parts [name]).symm
  cases hp : t.locate p with
  | error o =>
    rw [hp] at hfollow
    cases hfollow
  | ok m =>
    rw [hp] at hfollow
    simp only [Except.bind, follow] at hfollow
    split at hfollow
    · cases hfollow
    · cases hfollow
    · next hd => exact hasDirectory_eq_true_iff.mpr ⟨m, hp, hd⟩

/-! ### A file and the directories on the way to it -/

structure Wrote (t u : FileTree) (p : Path) (content : Utf8.Bytes) (time : Int) : Prop where
  wellFormed : u.WellFormed
  place : u.place = t.place
  hasNull : p.hasNull = false
  free : t.get? (t.landing p) ≠ some .directory
  get?_self : u.get? (t.landing p) = some (.file content time)
  get?_other : ∀ m, m ≠ t.landing p → u.get? m = t.get? m ∨
    (t.get? m = none ∧ u.get? m = some .directory ∧ m <+: t.landing p)

theorem Extends.wrote (h : t.Extends u (t.landing p.parent)) (hp : p.Descends)
    (hw : u.writeBytes p content time = .ok v) : t.Wrote v p content time := by
  have hv := h.wellFormed.writeBytes hp hw
  obtain ⟨hn, -, hne, rfl⟩ := (h.wellFormed.writeBytes_eq_ok_iff hp).mp hw
  have hl := landing_ne_nil hne
  rw [landing_congr h.place] at hne hl hv ⊢
  refine ⟨hv, h.place, hn, fun hd => hne (h.get?_of_eq_some hd), ?_, fun m hm => ?_⟩
  · rw [get?_put _ _ hl, if_pos rfl]
  · rw [get?_put _ _ hl, if_neg hm]
    rcases h.get? m with hg | ⟨hg, hd, hpre⟩
    · exact .inl hg
    · exact .inr ⟨hg, hd, hpre.trans (isPrefix_landing_parent t p)⟩

namespace Wrote

theorem directory (h : t.Wrote u p content time) (hd : t.get? m = some .directory) :
    u.get? m = some .directory := by
  have hne : m ≠ t.landing p := fun hm => h.free (hm ▸ hd)
  rcases h.get?_other m hne with hg | ⟨hg, -, -⟩
  · rw [hg, hd]
  · rw [hg] at hd
    cases hd

theorem get?_of_file (h : t.Wrote u p content time) (hne : m ≠ t.landing p) {c : Utf8.Bytes}
    {τ : Int} : u.get? m = some (.file c τ) ↔ t.get? m = some (.file c τ) := by
  rcases h.get?_other m hne with hg | ⟨hg, hd, -⟩
  · rw [hg]
  · simp [hg, hd]

theorem get?_of_not_isPrefix (h : t.Wrote u p content time) (hm : ¬m <+: t.landing p) :
    u.get? m = t.get? m := by
  have hne : m ≠ t.landing p := fun he => hm (he ▸ List.prefix_refl _)
  exact (h.get?_other m hne).resolve_right fun hg => hm hg.2.2

end Wrote

end Coursework.FileTree
