import Coursework.Export
import Coursework.Proofs.FileTree.Copying

namespace Coursework

structure Path.Resolved (p : Path) : Prop where
  anchor : p.anchor = .root
  descends : p.Descends

namespace FileTree

theorem landing_resolved (t : FileTree) {p : Path} (hp : p.Resolved) : t.landing p = p.parts := by
  rw [landing, base, hp.anchor]
  rfl

theorem site_resolved (t : FileTree) {p : Path} (hp : p.Resolved) : t.site p = p.parts := by
  rw [site_eq, base, hp.anchor]
  exact Path.normalParts_of_not_mem hp.descends

def FileAt (t : FileTree) (l : Location) : Prop :=
  ∃ content time, t.get? l = some (.file content time)

theorem Spares.fileAt {t u : FileTree} {S : Location → Prop} (h : t.Spares u S) {l : Location}
    (hl : ¬S l) : u.FileAt l ↔ t.FileAt l :=
  exists_congr fun c => exists_congr fun τ => h l c τ hl

end FileTree

namespace Export

open FileTree

variable {t u : FileTree} {project output : Path} {leftOut : List Text} {js : List Json}
  {rel done here : Location}

theorem overlaps_iff (hp : project.Resolved) (ho : output.Resolved) :
    overlaps project output = true ↔ output.parts <+: project.parts := by
  have heq : ∀ ps, output = ⟨project.anchor, ps⟩ ↔ output.parts = ps := fun ps => by
    rw [hp.anchor, ← ho.anchor]
    exact ⟨fun h => by rw [h], fun h => by rw [← h]⟩
  have hself : output = project ↔ output.parts = project.parts := heq project.parts
  simp only [overlaps, Path.ancestors, Bool.or_eq_true, beq_iff_eq, List.contains_iff_mem,
    List.mem_map, List.mem_reverse, List.mem_range, hself]
  constructor
  · rintro (h | ⟨n, -, h⟩)
    · rw [h]
    · rw [(heq _).mp h.symm]
      exact List.take_prefix _ _
  · intro h
    rcases h.length_le.lt_or_eq with hlt | hlen
    · exact .inr ⟨_, hlt, ((heq _).mpr (List.prefix_iff_eq_take.mp h)).symm⟩
    · exact .inl (h.eq_of_length hlen)

theorem overlaps_eq_false_iff (hp : project.Resolved) (ho : output.Resolved) :
    overlaps project output = false ↔ ¬output.parts <+: project.parts := by
  rw [← overlaps_iff hp ho, Bool.not_eq_true]

/-! ### The names that are copied -/

def AlwaysIgnored (name : Text) : Prop := alwaysIgnored.any (fun p => Glob.fits p name) = true

instance : DecidablePred AlwaysIgnored := fun name =>
  inferInstanceAs (Decidable (alwaysIgnored.any (fun p => Glob.fits p name) = true))

/-- Whether what lies below the project is copied: no name on the way is always ignored, the first
one is not left out, and the output is not on the way. -/
structure Released (project output : Location) (leftOut : Option Text) (rel : Location) : Prop where
  names : ∀ name ∈ rel, ¬AlwaysIgnored name
  first : ∀ name, leftOut = some name → rel.head? ≠ some name
  outside : ¬output <+: project ++ rel

theorem ignores_eq_false_iff {project output : Location} {name : Text} :
    ignores project output leftOut here name = false ↔
      ¬AlwaysIgnored name ∧ (here = project → name ∉ leftOut) ∧ here ++ [name] ≠ output := by
  rw [ignores, Bool.or_eq_false_iff, Bool.or_eq_false_iff, Bool.and_eq_false_imp, and_assoc,
    AlwaysIgnored, Bool.not_eq_true, beq_eq_false_iff_ne, beq_iff_eq, List.contains_eq_mem,
    decide_eq_false_iff_not]

theorem keeps_below_iff {project output : Location} (hlong : project.length < here.length)
    (ho : ¬output <+: here) : keeps (ignores project output leftOut) here rel = true ↔
      (∀ name ∈ rel, ¬AlwaysIgnored name) ∧ ¬output <+: here ++ rel := by
  -- below the project's own directory the left out name is a name like any other
  induction rel generalizing here with
  | nil => simpa [keeps] using ho
  | cons name names ih =>
    have hbelow : here ≠ project := fun he => by
      rw [he] at hlong
      omega
    rw [keeps_cons, ignores_eq_false_iff, List.forall_mem_cons]
    by_cases hout : here ++ [name] = output
    · have hat : output <+: here ++ name :: names := hout ▸ List.append_cons here name names ▸
        List.prefix_append _ _
      exact ⟨fun h => absurd hout h.1.2.2, fun h => absurd hat h.2⟩
    · have ho' : ¬output <+: here ++ [name] := fun h =>
        (List.prefix_concat_iff.mp h).elim (fun he => hout he.symm) ho
      have hlong' : project.length < (here ++ [name]).length := by
        rw [List.length_append]
        omega
      rw [ih hlong' ho', ← List.append_cons]
      simp only [hbelow, hout, false_implies, ne_eq, not_false_eq_true, and_true, and_assoc]

theorem keeps_iff {project output : Location} (ho : ¬output <+: project) :
    keeps (ignores project output leftOut) project rel = true ↔
      (∀ name ∈ rel, ¬AlwaysIgnored name) ∧ (∀ name ∈ leftOut, rel.head? ≠ some name) ∧
        ¬output <+: project ++ rel := by
  cases rel with
  | nil => exact ⟨fun _ => ⟨by simp, by simp, by simpa using ho⟩, fun _ => rfl⟩
  | cons name names =>
    rw [keeps_cons, ignores_eq_false_iff]
    by_cases hout : project ++ [name] = output
    · have hat : output <+: project ++ name :: names := hout ▸ List.append_cons project name names ▸
        List.prefix_append _ _
      exact ⟨fun h => absurd hout h.1.2.2, fun h => absurd hat h.2.2⟩
    · have ho' : ¬output <+: project ++ [name] := fun h =>
        (List.prefix_concat_iff.mp h).elim (fun he => hout he.symm) ho
      rw [keeps_below_iff (by simp) ho', ← List.append_cons]
      constructor
      · rintro ⟨⟨hname, hfirst, -⟩, hnames, houtside⟩
        refine ⟨List.forall_mem_cons.mpr ⟨hname, hnames⟩, fun w hw hhead => ?_, houtside⟩
        exact hfirst rfl (Option.some.inj hhead ▸ hw)
      · rintro ⟨hnames, hfirst, houtside⟩
        have hnames := List.forall_mem_cons.mp hnames
        exact ⟨⟨hnames.1, fun _ hw => hfirst name hw rfl, hout⟩, hnames.2, houtside⟩

theorem released_iff {project output : Location} {name : Option Text} :
    Released project output name rel ↔ (∀ w ∈ rel, ¬AlwaysIgnored w) ∧
      (∀ w ∈ name.toList, rel.head? ≠ some w) ∧ ¬output <+: project ++ rel := by
  simp only [Option.mem_toList]
  exact ⟨fun h => ⟨h.names, h.first, h.outside⟩, fun h => ⟨h.1, h.2.1, h.2.2⟩⟩

/-! ### The copy -/

theorem ofCopy_ne_refused (e : CopyFault) (r : Refusal) : Fault.ofCopy e ≠ .refused r := by
  cases e <;> exact nofun

theorem copyProject_cases (t : FileTree) (project output : Path) (js : List Json) :
    let run := copyProject t project output js
    (∃ e, (∀ r, e ≠ .refused r) ∧ run = (t, some e)) ∨
    ∃ u, (if t.hasPath output then t.removeTree output else .ok t) = .ok u ∧
      ((∃ e, (∀ r, e ≠ .refused r) ∧ run = (u, some e)) ∨
      ∃ names, leftOutNames js = .ok names ∧
        let copy := u.copyTree project.parts output.parts
          (ignores project.parts output.parts names)
        run = (copy.1, copy.2.map Fault.ofCopy)) := by
  rw [copyProject]
  cases if t.hasPath output then t.removeTree output else .ok t with
  | error e => exact .inl ⟨.file e, nofun, rfl⟩
  | ok u =>
    refine .inr ⟨u, rfl, ?_⟩
    simp only
    cases leftOutNames js with
    | error e => exact .inl ⟨.misfit e, nofun, rfl⟩
    | ok names => exact .inr ⟨names, rfl, rfl⟩

theorem cleared (h : t.WellFormed) (ho : output.Resolved)
    (hapart : ¬output.parts <+: project.parts)
    (hu : (if t.hasPath output then t.removeTree output else .ok t) = .ok u) :
    u.Rooted ∧ u.get? output.parts = none ∧ t.Spares u (output.parts <+: ·) := by
  have hne : output.parts ≠ [] := fun hnil => hapart (hnil ▸ List.nil_prefix)
  split at hu
  · rw [removeTree] at hu
    cases hl : t.locate output with
    | error o => simp [hl] at hu
    | ok l =>
      obtain rfl : l = output.parts := (h.locate_eq_site hl).trans (t.site_resolved ho)
      cases hg : t.get? output.parts with
      | none => simp [hl, hg] at hu
      | some e =>
        cases e with
        | file c τ => simp [hl, hg] at hu
        | directory =>
          simp only [hl, hg, Except.ok.injEq] at hu
          rw [← hu]
          refine ⟨h.rooted.prune _, ?_, fun l c τ hl => by rw [get?_prune_outside t hl]⟩
          rw [get?_prune t hne, if_pos (List.prefix_refl _)]
  · next hno =>
    rw [← Except.ok.inj hu]
    refine ⟨h.rooted, ?_, .refl t _⟩
    rw [hasPath, h.entry_eq ho.descends, landing_resolved t ho, Bool.not_eq_true,
      Option.isSome_eq_false_iff, Option.isNone_iff_eq_none] at hno
    exact hno

theorem clear_of_apart {project output : Location} (ho : ¬output <+: project) (rel : Location)
    (hk : keeps (ignores project output leftOut) project rel = true) :
    ¬output <+: project ++ rel :=
  ((keeps_iff ho).mp hk).2.2

theorem copyProject_ends (h : t.WellFormed) (ho : output.Resolved)
    (hapart : ¬output.parts <+: project.parts) (js : List Json) :
    let run := copyProject t project output js
    (t.Spares run.1 (output.parts <+: ·) ∧ ∃ e, run.2 = some e) ∨
    ∃ u names v w, (if t.hasPath output then t.removeTree output else .ok t) = .ok u ∧
      leftOutNames js = .ok names ∧ u.get? project.parts = some .directory ∧
      u.makeWay output.parts = .ok w ∧ run = (v, none) ∧
      u.Copies v project.parts output.parts (ignores project.parts output.parts names) ∧
      (∀ l, l <+: output.parts → v.get? l = some .directory) ∧
      ∀ rel, u.get? (project.parts ++ rel) = some .directory →
        keeps (ignores project.parts output.parts names) project.parts rel = true →
        v.get? (output.parts ++ rel) = some .directory := by
  rcases copyProject_cases t project output js with ⟨e, -, hrun⟩ | ⟨u, hu, hrun⟩
  · rw [hrun]
    exact .inl ⟨.refl t _, e, rfl⟩
  · obtain ⟨hroot, -, hspares⟩ := cleared h ho hapart hu
    rcases hrun with ⟨e, -, hrun⟩ | ⟨names, hnames, hrun⟩
    · rw [hrun]
      exact .inl ⟨hspares, e, rfl⟩
    · rcases hroot.copyTree ho.descends (clear_of_apart hapart) with
        ⟨e, hcopy, -⟩ | ⟨v, w, hproject, hw, hcopy, hmade⟩
      · rw [hrun, hcopy]
        exact .inl ⟨hspares, _, rfl⟩
      · rw [hcopy] at hrun
        exact .inr ⟨u, names, v, w, hu, hnames, hproject, hw, hrun, hmade⟩

theorem copyProject_spares (h : t.WellFormed) (ho : output.Resolved)
    (hapart : ¬output.parts <+: project.parts) (js : List Json) :
    t.Spares (copyProject t project output js).1 (output.parts <+: ·) := by
  rcases copyProject_ends h ho hapart js with
    ⟨hspares, -⟩ | ⟨u, names, v, w, hu, -, -, -, hrun, hcopies, -⟩
  · exact hspares
  · rw [hrun]
    exact (cleared h ho hapart hu).2.2.trans hcopies.outside

theorem copyProject_ok (h : t.WellFormed) (ho : output.Resolved)
    (hapart : ¬output.parts <+: project.parts) (hu : copyProject t project output js = (u, none)) :
    ∃ names, leftOutNames js = .ok names ∧ ∀ rel content time,
      u.get? (output.parts ++ rel) = some (.file content time) ↔
        ((∀ name ∈ rel, ¬AlwaysIgnored name) ∧ (∀ name ∈ names, rel.head? ≠ some name) ∧
          ¬output.parts <+: project.parts ++ rel) ∧
        t.get? (project.parts ++ rel) = some (.file content time) := by
  rcases copyProject_ends h ho hapart js with
    ⟨-, e, he⟩ | ⟨w, names, v, x, hw, hnames, -, -, hrun, hcopies, -⟩
  · rw [hu] at he
    cases he
  · obtain rfl : u = v := (Prod.mk.inj (hu.symm.trans hrun)).1
    refine ⟨names, hnames, fun rel c τ => ?_⟩
    rw [hcopies.below rel c τ, keeps_iff hapart, and_comm]
    exact and_congr_right fun hr => (cleared h ho hapart hw).2.2 _ c τ hr.2.2

/-! ### When a copy is made -/

theorem cleared_ok (h : t.WellFormed) (ho : output.Resolved)
    (hout : t.get? output.parts = some .directory ∨ t.get? output.parts = none) :
    ∃ u, (if t.hasPath output then t.removeTree output else .ok t) = .ok u ∧
      ∀ l, ¬output.parts <+: l → u.get? l = t.get? l := by
  have hlanding : t.landing output = output.parts := landing_resolved t ho
  rcases hout with hg | hg
  · have hlocate := h.locate_of_get? ho.descends (hlanding.symm ▸ hg)
    have hpath : t.hasPath output = true := by
      rw [hasPath, h.entry_eq ho.descends, hlanding, hg, Option.isSome_some]
    rw [if_pos hpath, removeTree, hlocate, hlanding]
    simp only [hg]
    exact ⟨_, rfl, fun l hl => get?_prune_outside t hl⟩
  · have hpath : ¬t.hasPath output = true := by
      rw [hasPath, h.entry_eq ho.descends, hlanding, hg, Option.isSome_none]
      exact Bool.false_ne_true
    exact ⟨t, if_neg hpath, fun l _ => rfl⟩

theorem directory_or_none {l : Location} (hl : ¬t.FileAt l) :
    t.get? l = some .directory ∨ t.get? l = none := by
  cases hg : t.get? l with
  | none => exact .inr rfl
  | some e =>
    cases e with
    | directory => exact .inl rfl
    | file c τ => exact absurd ⟨c, τ, hg⟩ hl

theorem leftOutNames_text (names : List Text) : leftOutNames (names.map .text) = .ok names := by
  induction names with
  | nil => rfl
  | cons name names ih =>
    rw [List.map_cons, leftOutNames, ih]
    rfl

theorem leftOutNames_singleton {value : Json} {names : List Text}
    (h : leftOutNames [value] = .ok names) :
    ∃ name, leftOutName value = .ok name ∧ names = name.toList := by
  rw [leftOutNames] at h
  cases hv : leftOutName value with
  | error e =>
    rw [hv] at h
    cases h
  | ok name =>
    rw [hv] at h
    have hnames : name.toList ++ [] = names := Except.ok.inj h
    exact ⟨name, rfl, by rw [← hnames, List.append_nil]⟩

theorem exists_copyProject_of_names (h : t.WellFormed) (ho : output.Resolved)
    (hapart : ¬output.parts <+: project.parts)
    (hproject : t.get? project.parts = some .directory)
    (hfree : ∀ l, l <+: output.parts → ¬t.FileAt l) {names : List Text}
    (hnames : leftOutNames js = .ok names) :
    ∃ u, copyProject t project output js = (u, none) := by
  obtain ⟨u, hu, hkept⟩ := cleared_ok h ho (directory_or_none (hfree _ (List.prefix_refl _)))
  have hgone : u.get? output.parts = none := (cleared h ho hapart hu).2.1
  have hway : ∀ l, l <+: output.parts → u.get? l = none ∨ u.get? l = some .directory := by
    intro l hl
    by_cases hself : output.parts <+: l
    · rw [hl.eq_of_length_le hself.length_le]
      exact .inl hgone
    · rw [hkept l hself]
      exact (directory_or_none (hfree l hl)).symm
  obtain ⟨w, hw⟩ := exists_makeWay hgone hway
  have hclear : ∀ rel, keeps (ignores project.parts output.parts names) project.parts rel = true →
      ¬output.parts <+: project.parts ++ rel := clear_of_apart hapart
  obtain ⟨v, hv, -⟩ := (cleared h ho hapart hu).1.copies ho.descends hclear
    ((hkept _ hapart).trans hproject) hw
  refine ⟨v, ?_⟩
  rw [copyProject, hu, hnames]
  simp only [hv, Option.map_none]

theorem exists_copyProject (h : t.WellFormed) (ho : output.Resolved)
    (hapart : ¬output.parts <+: project.parts)
    (hproject : t.get? project.parts = some .directory)
    (hout : t.get? output.parts = some .directory ∨ t.get? output.parts = none ∧
      ∀ l, l <+: output.parts → t.get? l = none ∨ t.get? l = some .directory) (names : List Text) :
    ∃ u, copyProject t project output (names.map .text) = (u, none) := by
  refine exists_copyProject_of_names h ho hapart hproject ?_ (leftOutNames_text names)
  rintro l hl ⟨c, τ, hg⟩
  rcases hout with hdir | ⟨-, hway⟩
  · exact h.not_isPrefix_of_file hg hdir hl
  · rcases hway l hl with hl | hl <;> cases hl.symm.trans hg

/-- An accepted output that is a directory, or is not there and has no file in its way, becomes the
copy of the project: what lay there is gone, and it holds the files of the project, as they are, but
for those with an ignored name on the way, those in what is left out and those at and below the
output itself. No other file changes. -/
theorem copyProject_exact (h : t.WellFormed) (hp : project.Resolved) (ho : output.Resolved)
    (haccepted : overlaps project output = false)
    (hproject : t.get? project.parts = some .directory)
    (hout : t.get? output.parts = some .directory ∨ t.get? output.parts = none ∧
      ∀ l, l <+: output.parts → t.get? l = none ∨ t.get? l = some .directory)
    (leftOut : List Text) :
    ∃ u, copyProject t project output (leftOut.map .text) = (u, none) ∧
      (∀ rel content time, u.get? (output.parts ++ rel) = some (.file content time) ↔
        ((∀ name ∈ rel, ¬AlwaysIgnored name) ∧ (∀ name ∈ leftOut, rel.head? ≠ some name) ∧
          ¬output.parts <+: project.parts ++ rel) ∧
        t.get? (project.parts ++ rel) = some (.file content time)) ∧
      t.Spares u (output.parts <+: ·) := by
  have hapart : ¬output.parts <+: project.parts :=
    (overlaps_eq_false_iff hp ho).mp haccepted
  obtain ⟨u, hu⟩ := exists_copyProject h ho hapart hproject hout leftOut
  obtain ⟨names, hnames, hfiles⟩ := copyProject_ok h ho hapart hu
  rw [leftOutNames_text] at hnames
  obtain rfl := Except.ok.inj hnames
  have hspares := copyProject_spares h ho hapart (leftOut.map .text)
  rw [hu] at hspares
  exact ⟨u, hu, hfiles, hspares⟩

def copiedTree : FileTree where
  entries := [
    (["w"], .directory),
    (["w", "a.gd"], .file [1] 5),
    (["w", "a.pyc"], .file [] 5),
    (["w", "b"], .directory),
    (["w", "b", "o"], .directory),
    (["w", "b", "o", "old.gd"], .file [] 4),
    (["w", "b", "s"], .directory),
    (["w", "b", "s", "c.gd"], .file [2] 5),
    (["w", "s"], .directory),
    (["w", "s", "c.gd"], .file [] 5)]

theorem copyProject_exact_inner :
    let project := Path.ofText "/w"
    let output := Path.ofText "/w/b/o"
    copiedTree.WellFormed ∧ project.Resolved ∧ output.Resolved ∧ overlaps project output = false ∧
      copiedTree.get? ["w"] = some .directory ∧
      copiedTree.get? ["w", "b", "o"] = some .directory ∧
      ∃ u, copyProject copiedTree project output [.text "s", .text "p"] = (u, none) ∧
        u.get? ["w", "b", "o", "b", "s", "c.gd"] = some (.file [2] 5) ∧
        (∀ c τ, u.get? ["w", "b", "o", "s", "c.gd"] ≠ some (.file c τ)) ∧
        (∀ c τ, u.get? ["w", "b", "o", "old.gd"] ≠ some (.file c τ)) := by
  intro project output
  have hwf : copiedTree.WellFormed := by decide +kernel
  have hp : project.Resolved := ⟨by decide, by decide⟩
  have ho : output.Resolved := ⟨by decide, by decide⟩
  have hproject : copiedTree.get? ["w"] = some .directory := by decide
  have hout : copiedTree.get? ["w", "b", "o"] = some .directory := by decide
  obtain ⟨u, hu, hfiles, -⟩ := copyProject_exact hwf hp ho (by decide) hproject
    (.inl hout) ["s", "p"]
  refine ⟨hwf, hp, ho, by decide, hproject, hout, u, hu, ?_, fun c τ hg => ?_, fun c τ hg => ?_⟩
  · exact (hfiles ["b", "s", "c.gd"] [2] 5).mpr ⟨⟨by decide, by decide, by decide⟩, by decide⟩
  · exact ((hfiles ["s", "c.gd"] c τ).mp hg).1.2.1 "s" (by decide) rfl
  · have hnone : copiedTree.get? ["w", "old.gd"] = none := by decide
    exact Option.some_ne_none _ (((hfiles ["old.gd"] c τ).mp hg).2.symm.trans hnone)

end Export

end Coursework
