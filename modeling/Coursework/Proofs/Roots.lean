import Coursework.Roots
import Coursework.Proofs.FileTree.WellFormed
import Coursework.Proofs.Text.Pieces

namespace Coursework

open Text

namespace Path

variable {p q base target : Path} {rel : List Text}

def Proper (p : Path) : Prop := ∀ w ∈ p.parts, IsPart w

theorem proper_ofText (s : Text) : (ofText s).Proper := by
  intro w hw
  obtain ⟨hm, hw⟩ := List.mem_filter.mp hw
  simp only [Bool.and_eq_true, bne_iff_ne] at hw
  exact ⟨hw.1, hw.2, not_mem_of_mem_splitOn hm⟩

theorem Proper.under (hp : p.Proper) (hr : ∀ w ∈ rel, IsPart w) : (p.under rel).Proper := by
  intro w hw
  exact (List.mem_append.mp hw).elim (hp w) (hr w)

theorem Proper.moved (ht : target.Proper) (hp : (base.under rel).Proper) :
    (target.under rel).Proper :=
  ht.under fun w hw => hp w (List.mem_append_right _ hw)

theorem Proper.append (hp : p.Proper) (hq : q.Proper) : (p ++ q).Proper := by
  change (Path.append p q).Proper
  rw [Path.append]
  split
  · exact hp.under hq
  · exact hq

theorem partsOf_join {ws : List Text} (h : ∀ w ∈ ws, IsPart w) :
    partsOf (join ['/'] ws) = ws := by
  by_cases hne : ws = []
  · subst hne
    rfl
  · rw [partsOf, splitOn_join hne fun w hw => (h w hw).2.2]
    apply List.filter_eq_self.mpr
    intro w hw
    simp [(h w hw).1, (h w hw).2.1]

theorem partsOf_slash (s : Text) : partsOf ('/' :: s) = partsOf s := by
  simp [partsOf, splitOn]

theorem head?_join_ne {ws : List Text} (h : ∀ w ∈ ws, IsPart w) :
    (join ['/'] ws).head? ≠ some '/' := by
  cases ws with
  | nil => simp [join]
  | cons w ws =>
    obtain ⟨hne, -, hslash⟩ := h w List.mem_cons_self
    obtain ⟨c, w, rfl⟩ := List.exists_cons_of_ne_nil hne
    rw [join_eq_append_flatMap]
    simp only [List.cons_append, List.head?_cons, ne_eq, Option.some.injEq]
    rintro rfl
    exact hslash List.mem_cons_self

theorem anchor_ofText_bareText (h : p.Proper) : Anchor.ofText p.bareText = p.anchor := by
  have hhead := head?_join_ne h
  rw [bareText]
  cases p.anchor <;> cases hj : join ['/'] p.parts with
  | nil => rfl
  | cons c s =>
    rw [hj, List.head?_cons] at hhead
    have hc : c ≠ '/' := fun he => hhead (he ▸ rfl)
    simp [Anchor.text, Anchor.ofText, hc]

theorem partsOf_bareText (h : p.Proper) : partsOf p.bareText = p.parts := by
  rw [bareText]
  cases p.anchor with
  | here => exact partsOf_join h
  | root => exact (partsOf_slash _).trans (partsOf_join h)
  | doubleRoot => exact (partsOf_slash _).trans ((partsOf_slash _).trans (partsOf_join h))

theorem ofText_text (h : p.Proper) : ofText p.text = p := by
  have hanchor := anchor_ofText_bareText h
  have hparts := partsOf_bareText h
  rw [text]
  split
  · next hnil =>
    rw [hnil] at hanchor hparts
    obtain ⟨anchor, parts⟩ := p
    obtain rfl : Anchor.here = anchor := hanchor
    obtain rfl : [] = parts := hparts
    rfl
  · rw [ofText, hanchor, hparts]

def Within (base p : Path) : Prop := p.anchor = base.anchor ∧ base.parts <+: p.parts

theorem within_iff : Within base p ↔ ∃ rel, p = base.under rel := by
  constructor
  · rintro ⟨ha, rel, hrel⟩
    refine ⟨rel, ?_⟩
    rw [Path.under, hrel, ← ha]
  · rintro ⟨rel, rfl⟩
    exact ⟨rfl, List.prefix_append _ _⟩

theorem relativeTo_eq_ok_iff :
    p.relativeTo base = .ok q ↔ q.anchor = .here ∧ p = base.under q.parts := by
  obtain ⟨anchor, parts⟩ := p
  obtain ⟨anchor', rel⟩ := q
  simp only [relativeTo, Path.under, Path.mk.injEq]
  by_cases ha : anchor = base.anchor
  · cases hb : below? base.parts parts with
    | none =>
      have hparts : parts ≠ base.parts ++ rel := by
        intro he
        rw [below?_eq_some_iff.mpr he] at hb
        cases hb
      simp [ha, hparts]
    | some rest =>
      obtain rfl := below?_eq_some_iff.mp hb
      simp [ha, eq_comm]
  · simp [ha]

theorem relativeTo_eq_error_iff {e : NotBelow} :
    p.relativeTo base = .error e ↔ ¬Within base p ∧ e = ⟨p, base⟩ := by
  rw [within_iff]
  cases h : p.relativeTo base with
  | ok q =>
    have hp := (relativeTo_eq_ok_iff.mp h).2
    simp only [reduceCtorEq, false_iff, not_and_or, not_not]
    exact .inl ⟨_, hp⟩
  | error e' =>
    have hno : ¬∃ rel, p = base.under rel := by
      rintro ⟨rel, hp⟩
      rw [relativeTo_eq_ok_iff (q := ⟨.here, rel⟩) |>.mpr ⟨rfl, hp⟩] at h
      cases h
    have he : e' = ⟨p, base⟩ := by
      rw [relativeTo] at h
      split at h
      · split at h
        · cases h
        · exact (Except.error.inj h).symm
      · exact (Except.error.inj h).symm
    simp [hno, he, eq_comm]

theorem append_of_here (h : q.anchor = .here) : p ++ q = p.under q.parts := by
  change Path.append p q = _
  rw [Path.append, h]
  rfl

theorem append_relativeTo_eq_ok_iff : (target ++ ·) <$> p.relativeTo base = .ok q ↔
    ∃ rel, p = base.under rel ∧ q = target.under rel := by
  constructor
  · intro h
    cases hr : p.relativeTo base with
    | error e =>
      rw [hr] at h
      cases h
    | ok rel =>
      rw [hr] at h
      obtain ⟨hhere, hp⟩ := relativeTo_eq_ok_iff.mp hr
      exact ⟨rel.parts, hp, by rw [← append_of_here hhere]; exact (Except.ok.inj h).symm⟩
  · rintro ⟨rel, hp, rfl⟩
    rw [relativeTo_eq_ok_iff (q := ⟨.here, rel⟩) |>.mpr ⟨rfl, hp⟩]
    rfl

theorem append_relativeTo_eq_error_iff {e : NotBelow} :
    (target ++ ·) <$> p.relativeTo base = .error e ↔ ¬Within base p ∧ e = ⟨p, base⟩ := by
  rw [← relativeTo_eq_error_iff]
  cases p.relativeTo base <;> simp [Functor.map, Except.map]

end Path

namespace Roots

variable {r : Roots} {p q : Path}

theorem practiceOf_eq_ok_iff : r.practiceOf p = .ok q ↔
    ∃ rel, p = r.solutions.under rel ∧ q = r.practices.under rel :=
  Path.append_relativeTo_eq_ok_iff

theorem solutionOf_eq_ok_iff : r.solutionOf q = .ok p ↔
    ∃ rel, q = r.practices.under rel ∧ p = r.solutions.under rel :=
  Path.append_relativeTo_eq_ok_iff

theorem practiceOf_eq_ok_iff_solutionOf : r.practiceOf p = .ok q ↔ r.solutionOf q = .ok p := by
  rw [practiceOf_eq_ok_iff, solutionOf_eq_ok_iff]
  simp only [and_comm]

theorem practiceOf_under (r : Roots) (rel : List Text) :
    r.practiceOf (r.solutions.under rel) = .ok (r.practices.under rel) :=
  practiceOf_eq_ok_iff.mpr ⟨rel, rfl, rfl⟩

theorem proper_ofNames (project solutionsName practicesName scheme : Text) :
    let r := ofNames (Path.ofText project) solutionsName practicesName scheme
    r.solutions.Proper ∧ r.practices.Proper :=
  ⟨(Path.proper_ofText _).append (Path.proper_ofText _),
    (Path.proper_ofText _).append (Path.proper_ofText _)⟩

/-- A path has a practice if and only if it is the solutions root or goes on from it, and a path has
a solution if and only if it is the practices root or goes on from it. The two maps undo each other,
also when what one gives is spelled out and read again, and keep what follows the root. -/
theorem trees_mirror (project solutionsName practicesName scheme : Text) :
    let r := ofNames (Path.ofText project) solutionsName practicesName scheme
    (∀ p e, r.practiceOf p = .error e ↔ ¬Path.Within r.solutions p ∧ e = ⟨p, r.solutions⟩) ∧
    (∀ q e, r.solutionOf q = .error e ↔ ¬Path.Within r.practices q ∧ e = ⟨q, r.practices⟩) ∧
    (∀ p q, r.practiceOf p = .ok q ↔ r.solutionOf q = .ok p) ∧
    (∀ rel, r.practiceOf (r.solutions.under rel) = .ok (r.practices.under rel)) ∧
    (∀ p p' q, r.practiceOf p = .ok q → r.practiceOf p' = .ok q → p = p') ∧
    (∀ s q, r.practiceOf (Path.ofText s) = .ok q →
      r.solutionOf (Path.ofText q.text) = .ok (Path.ofText s)) ∧
    ∀ s p, r.solutionOf (Path.ofText s) = .ok p →
      r.practiceOf (Path.ofText p.text) = .ok (Path.ofText s) := by
  intro r
  obtain ⟨hs, hp⟩ : r.solutions.Proper ∧ r.practices.Proper := proper_ofNames _ _ _ _
  refine ⟨fun p e => Path.append_relativeTo_eq_error_iff,
    fun q e => Path.append_relativeTo_eq_error_iff, fun p q => practiceOf_eq_ok_iff_solutionOf,
    practiceOf_under r, fun p p' q h h' => ?_, fun s q h => ?_, fun s p h => ?_⟩
  · have hsol := practiceOf_eq_ok_iff_solutionOf.mp h
    have hsol' := practiceOf_eq_ok_iff_solutionOf.mp h'
    exact Except.ok.inj (hsol.symm.trans hsol')
  · obtain ⟨rel, hrel, rfl⟩ := practiceOf_eq_ok_iff.mp h
    rw [Path.ofText_text (hp.moved (hrel ▸ Path.proper_ofText s))]
    exact practiceOf_eq_ok_iff_solutionOf.mp h
  · obtain ⟨rel, hrel, rfl⟩ := solutionOf_eq_ok_iff.mp h
    rw [Path.ofText_text (hs.moved (hrel ▸ Path.proper_ofText s))]
    exact practiceOf_eq_ok_iff_solutionOf.mpr h

example : (ofNames (Path.ofText "a//b/") "./s/" "/p" "res://").practiceOf
    (Path.ofText "a/./b/s/../x") = .ok (Path.ofText "/p/../x") := by decide

end Roots

end Coursework
