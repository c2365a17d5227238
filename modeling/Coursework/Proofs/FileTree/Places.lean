import Coursework.Proofs.FileTree.Writing

namespace Coursework

namespace Path

theorem foldl_eq_append {qs seen : List Text} (h : ['.', '.'] ∉ qs) :
    qs.foldl (fun seen w => if w = ['.', '.'] then seen.drop 1 else w :: seen) seen =
      qs.reverse ++ seen := by
  induction qs generalizing seen with
  | nil => rfl
  | cons q qs ih =>
    rw [List.mem_cons, not_or] at h
    rw [List.foldl_cons, if_neg (Ne.symm h.1), ih h.2]
    simp

theorem normalParts_append (ps : List Text) {qs : List Text} (h : ['.', '.'] ∉ qs) :
    normalParts (ps ++ qs) = normalParts ps ++ qs := by
  rw [normalParts, normalParts, List.foldl_append, foldl_eq_append h]
  simp

theorem normalParts_of_not_mem {ps : List Text} (h : ['.', '.'] ∉ ps) : normalParts ps = ps := by
  simpa [normalParts] using normalParts_append [] h

theorem not_mem_normalParts (ps : List Text) : ['.', '.'] ∉ normalParts ps := by
  have h : ∀ (ps seen : List Text), ['.', '.'] ∉ seen → ['.', '.'] ∉
      ps.foldl (fun seen w => if w = ['.', '.'] then seen.drop 1 else w :: seen) seen := by
    intro ps
    induction ps with
    | nil => exact fun seen hs => hs
    | cons p ps ih =>
      intro seen hs
      rw [List.foldl_cons]
      apply ih
      split
      · exact fun hm => hs (List.mem_of_mem_drop hm)
      · next hp => exact fun hm => (List.mem_cons.mp hm).elim (fun he => hp he.symm) hs
  rw [normalParts, List.mem_reverse]
  exact h ps [] List.not_mem_nil

end Path

namespace FileTree

variable {t u v : FileTree} {p : Path} {l : Location} {e : Entry} {content : Utf8.Bytes}
  {time : Int} {S S' : Location → Prop}

def site (t : FileTree) (p : Path) : Location := (p.resolved t.place).parts

theorem site_eq (t : FileTree) (p : Path) :
    t.site p = Path.normalParts (t.base p.anchor ++ p.parts) := by
  rw [site, Path.resolved, Path.absolute, base]
  cases p.anchor <;> simp

theorem site_congr (h : u.place = t.place) (p : Path) : u.site p = t.site p := by
  rw [site, site, h]

theorem site_under (t : FileTree) (p : Path) {rel : List Text} (hr : ['.', '.'] ∉ rel) :
    t.site (p.under rel) = t.site p ++ rel := by
  rw [site_eq, site_eq, Path.under, ← List.append_assoc, Path.normalParts_append _ hr]

theorem WellFormed.base (h : t.WellFormed) (a : Path.Anchor) : ['.', '.'] ∉ t.base a := by
  rw [FileTree.base]
  split
  · exact h.place
  · exact List.not_mem_nil

theorem WellFormed.site_eq_landing (h : t.WellFormed) (hp : p.Descends) :
    t.site p = t.landing p := by
  rw [site_eq, Path.normalParts_append _ hp, Path.normalParts_of_not_mem (h.base _), landing]

theorem follow_eq {here names : List Text} (h : t.follow here names = .ok l) : l.reverse =
    names.foldl (fun seen w => if w = ['.', '.'] then seen.drop 1 else w :: seen) here.reverse := by
  induction names generalizing here with
  | nil => rw [← Except.ok.inj h, List.foldl_nil]
  | cons name names ih =>
    rw [follow] at h
    split at h
    · cases h
    · cases h
    · rw [ih h, List.foldl_cons]
      congr 1
      split <;> simp [List.drop_one]

theorem locate_eq_site (hb : ['.', '.'] ∉ t.base p.anchor) (hl : t.locate p = .ok l) :
    l = t.site p := by
  have hf := follow_eq hl
  rw [site_eq, Path.normalParts, List.foldl_append, Path.foldl_eq_append hb, List.append_nil]
  rw [FileTree.base, ← hf, List.reverse_reverse]

theorem WellFormed.locate_eq_site (h : t.WellFormed) (hl : t.locate p = .ok l) : l = t.site p :=
  FileTree.locate_eq_site (h.base _) hl

theorem follow_last {here names : List Text} (h : t.follow here names = .ok l) :
    l = here ∨ ∃ d, t.get? d = some .directory ∧ (l = d.dropLast ∨ ∃ name, l = d ++ [name]) := by
  induction names generalizing here with
  | nil => exact .inl (Except.ok.inj h).symm
  | cons name names ih =>
    rw [follow] at h
    split at h
    · cases h
    · cases h
    · next hd =>
      rcases ih h with rfl | hlast
      · refine .inr ⟨here, hd, ?_⟩
        split
        · exact .inl rfl
        · exact .inr ⟨name, rfl⟩
      · exact .inr hlast

theorem WellFormed.hasDirectory_parent (h : t.WellFormed) (hl : t.locate p = .ok l)
    (hg : t.get? l ≠ some .directory) : t.hasDirectory p.parent = true := by
  obtain ⟨anchor, parts⟩ := p
  rcases List.eq_nil_or_concat parts with rfl | ⟨init, name, rfl⟩
  · exfalso
    apply hg
    rw [← Except.ok.inj hl]
    split
    · exact h.here
    · rfl
  · rw [List.concat_eq_append] at hl ⊢
    rw [locate, follow_append] at hl
    cases hm : t.follow (if anchor = .here then t.place else []) init with
    | error o =>
      rw [hm] at hl
      cases hl
    | ok m =>
      rw [hm] at hl
      change t.follow m [name] = .ok l at hl
      rw [FileTree.follow] at hl
      have hdir : t.get? m = some .directory := by
        split at hl
        · cases hl
        · cases hl
        · next hd => exact hd
      refine hasDirectory_eq_true_iff.mpr ⟨m, ?_, hdir⟩
      rw [Path.parent, List.dropLast_concat]
      exact hm

theorem WellFormed.locate_free (h : t.WellFormed) (hl : t.locate p = .ok l)
    (hne : t.get? l ≠ some .directory) :
    l ≠ [] ∧ ['.', '.'] ∉ l ∧ t.get? l.dropLast = some .directory := by
  refine ⟨?_, ?_, ?_⟩
  · rintro rfl
    exact hne rfl
  · rw [h.locate_eq_site hl, site_eq]
    exact Path.not_mem_normalParts _
  · rcases follow_last hl with rfl | ⟨d, hd, rfl | ⟨name, rfl⟩⟩
    · exfalso
      apply hne
      split
      · exact h.here
      · rfl
    · exact absurd (h.above_dropLast hd) hne
    · rwa [List.dropLast_concat]

def Spares (t u : FileTree) (S : Location → Prop) : Prop :=
  ∀ l content time, ¬S l →
    (u.get? l = some (.file content time) ↔ t.get? l = some (.file content time))

theorem Spares.refl (t : FileTree) (S : Location → Prop) : t.Spares t S := fun _ _ _ _ => Iff.rfl

theorem Spares.mono (h : t.Spares u S) (hs : ∀ l, S l → S' l) : t.Spares u S' :=
  fun l c τ hl => h l c τ (mt (hs l) hl)

theorem Spares.trans (h : t.Spares u S) (k : u.Spares v S) : t.Spares v S :=
  fun l c τ hl => (k l c τ hl).trans (h l c τ hl)

/-- One tree is another with files written at some locations and directories made anywhere. -/
structure Confined (t u : FileTree) (S : Location → Prop) : Prop where
  wellFormed : u.WellFormed
  place : u.place = t.place
  directory : ∀ l, t.get? l = some .directory → u.get? l = some .directory
  outside : ∀ l, ¬S l → u.get? l = t.get? l ∨ (t.get? l = none ∧ u.get? l = some .directory)

namespace Confined

theorem refl (h : t.WellFormed) (S : Location → Prop) : t.Confined t S :=
  ⟨h, rfl, fun _ hd => hd, fun _ _ => .inl rfl⟩

theorem mono (h : t.Confined u S) (hs : ∀ l, S l → S' l) : t.Confined u S' :=
  ⟨h.wellFormed, h.place, h.directory, fun l hl => h.outside l (mt (hs l) hl)⟩

theorem trans (h : t.Confined u S) (k : u.Confined v S) : t.Confined v S where
  wellFormed := k.wellFormed
  place := k.place.trans h.place
  directory l hd := k.directory l (h.directory l hd)
  outside l hl := by
    rcases k.outside l hl with hk | ⟨hk, hd⟩
    · rw [hk]
      exact h.outside l hl
    · rcases h.outside l hl with hh | ⟨-, hh⟩
      · exact .inr ⟨hh ▸ hk, hd⟩
      · rw [hh] at hk
        cases hk

theorem spares (h : t.Confined u S) : t.Spares u S := fun l c τ hl => by
  rcases h.outside l hl with hg | ⟨hg, hd⟩
  · rw [hg]
  · simp [hg, hd]

theorem locate (h : t.Confined u S) (hl : t.locate p = .ok l) : u.locate p = .ok l :=
  locate_mono h.directory h.place hl

theorem file_iff (h : t.Confined u S) (hl : ¬S l) :
    u.get? l = some (.file content time) ↔ t.get? l = some (.file content time) :=
  h.spares l content time hl

theorem readBytes (h : t.Confined u S) (ht : t.WellFormed) (hs : ¬S (t.site p))
    (hr : t.readBytes p = .ok content) : u.readBytes p = .ok content := by
  obtain ⟨hn, l, τ, hl, hg⟩ := readBytes_iff.mp hr
  rw [← ht.locate_eq_site hl] at hs
  exact readBytes_iff.mpr ⟨hn, l, τ, h.locate hl, (h.file_iff hs).mpr hg⟩

end Confined

theorem WellFormed.confined_put (h : t.WellFormed) (hl : t.locate p = .ok l)
    (hne : t.get? l ≠ some .directory) (hs : S l ∨ t.get? l = none ∧ e = .directory) :
    t.Confined (t.put l e) S := by
  obtain ⟨hnil, hn, hd⟩ := h.locate_free hl hne
  refine ⟨h.put hnil hn hd fun hg => absurd hg hne, rfl, fun m hm => ?_, fun m hm => ?_⟩
  · rw [get?_put _ _ hnil, if_neg]
    · exact hm
    · rintro rfl
      exact hne hm
  · rw [get?_put _ _ hnil]
    split
    · next he =>
      rcases hs with hs | ⟨hnone, rfl⟩
      · exact absurd (he ▸ hs) hm
      · exact .inr ⟨he ▸ hnone, rfl⟩
    · exact .inl rfl

theorem WellFormed.writeBytes_confined (h : t.WellFormed)
    (hw : t.writeBytes p content time = .ok u) : t.Confined u (· = t.site p) := by
  obtain ⟨-, l, hl, hne, rfl⟩ := writeBytes_iff.mp hw
  exact h.confined_put hl hne (.inl (h.locate_eq_site hl))

theorem WellFormed.makeDirectory_confined (h : t.WellFormed) (S : Location → Prop)
    (hm : t.makeDirectory p = .ok u) : t.Confined u S := by
  rw [FileTree.makeDirectory] at hm
  split at hm
  · cases hm
  · cases hl : t.locate p with
    | error o => simp [hl] at hm
    | ok l =>
      cases hg : t.get? l with
      | some e => simp [hl, hg] at hm
      | none =>
        simp only [hl, hg, Except.ok.injEq] at hm
        rw [← hm]
        exact h.confined_put hl (by simp [hg]) (.inr ⟨hg, rfl⟩)

theorem WellFormed.ensureDirectory_confined (h : t.WellFormed) (S : Location → Prop) (p : Path) :
    t.Confined (t.ensureDirectory p).1 S := by
  rw [FileTree.ensureDirectory]
  cases hm : t.makeDirectory p with
  | ok u => exact h.makeDirectory_confined S hm
  | error e => exact .refl h S

theorem WellFormed.ensureDirectoriesWithin_confined (h : t.WellFormed) (S : Location → Prop)
    (levels : Nat) (p : Path) : t.Confined (t.ensureDirectoriesWithin levels p).1 S := by
  induction levels generalizing p with
  | zero => exact h.ensureDirectory_confined S p
  | succ levels ih =>
    rw [FileTree.ensureDirectoriesWithin]
    cases hm : t.makeDirectory p with
    | ok u => exact h.makeDirectory_confined S hm
    | error e =>
      cases e with
      | missing q =>
        simp only
        split
        · exact .refl h S
        · have hparent := ih p.parent
          cases hr : t.ensureDirectoriesWithin levels p.parent with
          | mk u o =>
            rw [hr] at hparent
            cases o with
            | none => exact hparent.trans (hparent.wellFormed.ensureDirectory_confined S p)
            | some e => exact hparent
      | _ => exact .refl h S

theorem WellFormed.ensureDirectories_confined (h : t.WellFormed) (S : Location → Prop) (p : Path) :
    t.Confined (t.ensureDirectories p).1 S :=
  h.ensureDirectoriesWithin_confined S _ p

end FileTree

end Coursework
