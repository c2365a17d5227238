import Mathlib.Logic.Relation
import Coursework.Proofs.FileTree.Places
import Coursework.Proofs.Build.Content
import Coursework.Proofs.Build.Scan

namespace Coursework.Build

open Relation (ReflTransGen)

variable {b : Plan} {t u v w : FileTree} {script : Option SceneScript} {source target : Path}
  {d p q : Path} {forced : Bool} {pattern : Option Text} {time : Int} {ds : List Path}
  {S : Location → Prop}

def Writes (p : Path) (time : Int) (t u : FileTree) : Prop :=
  ∃ content, t.writeBytes p content time = .ok u

theorem convert_writes {extension : Text} {steps : List Outcome}
    (hc : convert b v extension target time = .ok (.ok (w, steps))) :
    ReflTransGen (Writes target time) v w := by
  rw [convert] at hc
  split at hc
  · cases hr : v.readText target with
    | error e => simp [hr] at hc
    | ok s =>
      cases hp : b.conversion.practiceText s with
      | none => simp [hr, hp] at hc
      | some x =>
        cases hw : v.writeText target x time with
        | error e => simp [hr, hp, hw] at hc
        | ok u =>
          simp only [hr, hp, hw, Except.ok.injEq, Prod.mk.injEq] at hc
          obtain ⟨rfl, -⟩ := hc
          exact .single ⟨_, hw⟩
  · simp only [Except.ok.injEq, Prod.mk.injEq] at hc
    rw [← hc.1]

theorem regenerate_writes (b : Plan) (t : FileTree) (script : Option SceneScript)
    (source target : Path) (time : Int) : ReflTransGen (Writes target time)
      (t.ensureDirectories target.parent).1 (regenerate b t script source target time).tree := by
  rw [regenerate]
  cases hd : t.ensureDirectories target.parent with
  | mk u o =>
    cases o with
    | some e => cases e <;> exact .refl
    | none =>
      simp only
      cases hp : produce b u script source target time with
      | error a => exact .refl
      | ok x =>
        cases x with
        | error m => exact .refl
        | ok x =>
          obtain ⟨v, step⟩ := x
          obtain ⟨content, c, -, -, hw, -⟩ := produce_ok hp
          have hv : ReflTransGen (Writes target time) u v := .single ⟨c, hw⟩
          simp only
          cases hc : convert b v source.extension target time with
          | error a => exact hv
          | ok x =>
            cases x with
            | error m => exact hv
            | ok x => exact hv.trans (convert_writes hc)

theorem confined_of_writes (h : t.WellFormed) (hw : ReflTransGen (Writes target time) t u) :
    t.Confined u (· = t.site target) := by
  induction hw with
  | refl => exact .refl h _
  | tail _ hw ih =>
    obtain ⟨c, hw⟩ := hw
    have hv := ih.wellFormed.writeBytes_confined hw
    rw [FileTree.site_congr ih.place] at hv
    exact ih.trans hv

theorem regenerate_confined (h : t.WellFormed) (b : Plan) (script : Option SceneScript)
    (source target : Path) (time : Int) :
    t.Confined (regenerate b t script source target time).tree (· = t.site target) := by
  have hx := h.ensureDirectories_confined (· = t.site target) target.parent
  have hw := confined_of_writes hx.wellFormed (regenerate_writes b t script source target time)
  rw [FileTree.site_congr hx.place] at hw
  exact hx.trans hw

theorem buildFile_confined (h : t.WellFormed) (b : Plan) (script : Option SceneScript)
    (forced : Bool) (p : Path) (time : Int) :
    t.Confined (buildFile b t script forced p time).tree
      fun l => ∃ x, b.roots.practiceOf p = .ok x ∧ l = t.site x := by
  rw [buildFile]
  cases hp : b.roots.practiceOf p with
  | error e => exact .refl h _
  | ok x =>
    simp only
    split
    · exact .refl h _
    · exact (regenerate_confined h b script _ _ time).mono fun l hl => ⟨x, rfl, hl⟩

section Preserves

variable {P : FileTree → Prop}

theorem buildFiles_preserves {ps : List Path}
    (hstep : ∀ u, P u → ∀ p ∈ ps, P (buildFile b u script forced p time).tree) (h : P t) :
    P (buildFiles b script forced time t ps).tree := by
  induction ps generalizing t with
  | nil => exact h
  | cons p ps ih =>
    have hp := hstep t h p List.mem_cons_self
    rw [buildFiles]
    cases hb : buildFile b t script forced p time with
    | mk u x =>
      rw [hb] at hp
      cases x with
      | error a => exact hp
      | ok r =>
        simp only
        split
        · exact hp
        · apply ih _ hp
          exact fun v hv p hm => hstep v hv p (List.mem_cons_of_mem _ hm)

theorem buildDirectory_preserves
    (hstep : ∀ files, b.filesOf t d pattern = .ok files → ∀ p ∈ files, ∀ script u, P u →
      P (buildFile b u script forced p time).tree) (h : P t) :
    P (buildDirectory b t forced pattern time d).tree := by
  rw [buildDirectory]
  cases b.scriptName with
  | none => exact h
  | some name =>
    simp only [buildWithScript]
    cases loadScript t d name with
    | error e =>
      simp only
      cases b.roots.practiceOf d <;> exact h
    | ok script =>
      simp only
      cases hf : b.filesOf t d pattern with
      | error e => exact h
      | ok files =>
        apply buildFiles_preserves _ h
        exact fun u hu p hp => hstep files hf p hp script u hu

theorem buildDirectories_preserves
    (hstep : ∀ d ∈ ds, ∀ u, P u → P (buildDirectory b u forced pattern time d).tree) (h : P t) :
    P (buildDirectories b forced pattern time t ds).tree := by
  induction ds generalizing t with
  | nil => exact h
  | cons d ds ih =>
    rw [List.forall_mem_cons] at hstep
    have hd := hstep.1 t h
    rw [buildDirectories]
    cases hb : buildDirectory b t forced pattern time d with
    | mk u r a =>
      rw [hb] at hd
      cases a with
      | some a => exact hd
      | none => exact ih hstep.2 hd

theorem buildAll_preserves
    (hstep : ∀ ds, b.exercises t pattern = .ok ds → ∀ d ∈ ds, ∀ u, P u →
      P (buildDirectory b u forced pattern time d).tree) (h : P t) :
    P (buildAll b t forced pattern time).tree := by
  rw [buildAll]
  cases he : b.exercises t pattern with
  | error e => exact h
  | ok ds =>
    apply buildDirectories_preserves _ h
    exact hstep ds he

end Preserves

theorem buildDirectory_place (h : t.WellFormed) (b : Plan) (forced : Bool)
    (pattern : Option Text) (time : Int) (d : Path) :
    (buildDirectory b t forced pattern time d).tree.WellFormed ∧
      (buildDirectory b t forced pattern time d).tree.place = t.place := by
  refine buildDirectory_preserves (P := fun u => u.WellFormed ∧ u.place = t.place)
    (fun files hf p hp script u hu => ?_) ⟨h, rfl⟩
  have hx := buildFile_confined hu.1 b script forced p time
  exact ⟨hx.wellFormed, hx.place.trans hu.2⟩

theorem under_of_mem_scan (h : t.WellFormed) {x : List Text} {recursive : Bool}
    (hp : p ∈ scan t x d pattern recursive) : ∃ rel, p = d.under rel ∧ rel ≠ [] ∧
      ['.', '.'] ∉ rel ∧ Selection.excluded x (⟨.here, rel⟩ : Path).name = false ∧
      (recursive = true ∨ rel.length = 1) := by
  rw [scan] at hp
  split at hp
  · cases hp
  · split at hp
    · rw [List.mem_mergeSort, List.mem_filterMap] at hp
      obtain ⟨⟨rel, c, τ⟩, hm, hp⟩ := hp
      simp only [Option.ite_none_right_eq_some, Option.some.injEq] at hp
      obtain ⟨⟨hne, hr, hs⟩, rfl⟩ := hp
      simp only [Selection.selects, Bool.and_eq_true, Bool.not_eq_true'] at hs
      exact ⟨rel, rfl, hne, h.not_mem_of_get? (h.mem_filesBelow.mp hm), hs.1.2, hr⟩
    · cases hp

theorem under_of_mem_filesOf (h : t.WellFormed) {files : List Path}
    (hf : b.filesOf t d pattern = .ok files) (hp : p ∈ files) : ∃ rel, p = d.under rel ∧ rel ≠ [] ∧
      ['.', '.'] ∉ rel ∧ Selection.excluded b.excludes.patterns (⟨.here, rel⟩ : Path).name = false ∧
      (d = b.roots.solutions → rel.length = 1) := by
  obtain ⟨rfl, -⟩ := scanWith_ok hf
  obtain ⟨rel, hrel, hne, hn, hx, hr⟩ := under_of_mem_scan h hp
  refine ⟨rel, hrel, hne, hn, hx, fun hd => hr.resolve_left ?_⟩
  simp [hd]

theorem located_of_mem_scan (h : t.WellFormed) {x : List Text} {recursive : Bool}
    (hp : p ∈ scan t x d pattern recursive) : ∃ l rel content σ, t.locate d = .ok l ∧
      p = d.under rel ∧ t.locate p = .ok (t.site p) ∧ t.site p = l ++ rel ∧
      t.get? (t.site p) = some (.file content σ) := by
  cases hl : t.locate d with
  | error o =>
    rw [scan, hl] at hp
    cases hp
  | ok l =>
    obtain ⟨rel, rfl, ⟨content, σ, hg⟩, -, hne, -⟩ := (mem_scan_located h hl).mp hp
    have hlocate := h.locate_under hl (h.not_mem_of_get? hg) hne hg
    have hsite := h.locate_eq_site hlocate
    rw [hsite] at hlocate hg
    exact ⟨l, rel, content, σ, rfl, rfl, hlocate, hsite.symm, hg⟩

theorem located_of_mem_filesOf (h : t.WellFormed) {files : List Path}
    (hf : b.filesOf t d pattern = .ok files) (hp : p ∈ files) : ∃ l rel content σ,
      t.locate d = .ok l ∧ p = d.under rel ∧ t.locate p = .ok (t.site p) ∧ t.site p = l ++ rel ∧
      t.get? (t.site p) = some (.file content σ) := by
  obtain ⟨rfl, -⟩ := scanWith_ok hf
  exact located_of_mem_scan h hp

theorem home_append {xs rel : List Text} (hx : xs.length ≤ 1) (hne : rel ≠ [])
    (hlen : b.source xs = b.roots.solutions → rel.length = 1) : b.home (xs ++ rel) = b.source xs := by
  cases xs with
  | nil =>
    obtain ⟨x, rfl⟩ := List.length_eq_one_iff.mp (hlen (Path.under_nil _))
    rfl
  | cons x xs =>
    obtain rfl : xs = [] := List.length_eq_zero_iff.mp (by simpa using hx)
    obtain ⟨y, ys, rfl⟩ := List.exists_cons_of_ne_nil hne
    rfl

theorem practiceOf_under (hq : b.roots.practiceOf d = .ok q) (rel : List Text) :
    b.roots.practiceOf (d.under rel) = .ok (q.under rel) := by
  obtain ⟨xs, rfl, rfl⟩ := Roots.practiceOf_eq_ok_iff.mp hq
  rw [Path.under_under, Path.under_under]
  exact b.roots.practiceOf_under _

def Below (b : Plan) (t : FileTree) (d : Path) (l : Location) : Prop :=
  ∃ q rel, b.roots.practiceOf d = .ok q ∧ rel ≠ [] ∧
    (d = b.roots.solutions → rel.length = 1) ∧ l = t.site q ++ rel

theorem buildDirectory_below (h : t.WellFormed) (hq : b.roots.practiceOf d = .ok q)
    (forced : Bool) (pattern : Option Text) (time : Int) :
    t.Confined (buildDirectory b t forced pattern time d).tree (Below b t d) := by
  refine buildDirectory_preserves (P := fun u => t.Confined u (Below b t d))
    (fun files hf p hp script u hu => ?_) (.refl h _)
  obtain ⟨rel, rfl, hne, hn, -, hlen⟩ := under_of_mem_filesOf h hf hp
  refine hu.trans ((buildFile_confined hu.wellFormed b script forced _ time).mono ?_)
  rintro l ⟨x, hx, rfl⟩
  obtain rfl := Except.ok.inj ((practiceOf_under hq rel).symm.trans hx)
  rw [FileTree.site_congr hu.place, FileTree.site_under _ _ hn]
  exact ⟨q, rel, hq, hne, hlen, rfl⟩

def InPractices (b : Plan) (t : FileTree) (l : Location) : Prop := t.site b.roots.practices <+: l

instance : DecidablePred (InPractices b t) := fun l =>
  inferInstanceAs (Decidable (t.site b.roots.practices <+: l))

theorem inPractices_congr (h : u.place = t.place) (b : Plan) :
    InPractices b u = InPractices b t := by
  funext l
  rw [InPractices, InPractices, FileTree.site_congr h]

def InSolutions (b : Plan) (p : Path) : Prop := ∃ rel, ['.', '.'] ∉ rel ∧ p = b.source rel

theorem InSolutions.practiceOf (hd : InSolutions b d) :
    ∃ rel, ['.', '.'] ∉ rel ∧ d = b.source rel ∧ b.roots.practiceOf d = .ok (b.target rel) := by
  obtain ⟨rel, hr, rfl⟩ := hd
  exact ⟨rel, hr, rfl, practiceOf_source b rel⟩

theorem inPractices_of_below (hd : InSolutions b d) {l : Location} (hl : Below b t d l) :
    InPractices b t l := by
  obtain ⟨xs, hx, rfl, hq'⟩ := hd.practiceOf
  obtain ⟨q, rel, hq, -, -, rfl⟩ := hl
  obtain rfl := Except.ok.inj (hq'.symm.trans hq)
  rw [InPractices, Plan.target, FileTree.site_under _ _ hx, List.append_assoc]
  exact List.prefix_append _ _

theorem buildDirectory_confined (h : t.WellFormed) (b : Plan) (forced : Bool)
    (pattern : Option Text) (time : Int) (hd : InSolutions b d) :
    t.Confined (buildDirectory b t forced pattern time d).tree (InPractices b t) := by
  obtain ⟨_, _, _, hq⟩ := hd.practiceOf
  exact (buildDirectory_below h hq forced pattern time).mono fun l => inPractices_of_below hd

theorem source_of_mem_subdirectories (h : t.WellFormed)
    (hd : d ∈ subdirectories t b.roots.solutions) :
    ∃ name, d = b.source [name] ∧ ['.', '.'] ∉ [name] := by
  obtain ⟨l, name, e, hm, rfl⟩ := child_of_mem_subdirectories hd
  exact ⟨name, rfl, h.not_mem_of_get? (h.mem_childrenOf.mp hm)⟩

theorem inSolutions_of_mem_subdirectories (h : t.WellFormed)
    (hd : d ∈ subdirectories t b.roots.solutions) : InSolutions b d := by
  obtain ⟨name, rfl, hn⟩ := source_of_mem_subdirectories h hd
  exact ⟨[name], hn, rfl⟩

theorem source_of_mem_exercises (h : t.WellFormed) {ds : List Path}
    (he : b.exercises t pattern = .ok ds) (hd : d ∈ ds) :
    ∃ xs, d = b.source xs ∧ xs.length ≤ 1 ∧ ['.', '.'] ∉ xs := by
  obtain ⟨all, ha, hsub⟩ := exercises_sublist he
  have hd := hsub.subset hd
  rw [exercises_eq ha] at hd
  split at hd
  · rcases List.mem_append.mp hd with hd | hd
    · refine ⟨[], ?_, Nat.zero_le _, List.not_mem_nil⟩
      rw [Plan.source, Path.under_nil]
      split at hd
      · cases hd
      · exact List.mem_singleton.mp hd
    · obtain ⟨name, rfl, hn⟩ := source_of_mem_subdirectories h hd
      exact ⟨[name], rfl, Nat.le_refl _, hn⟩
  · cases hd

theorem inSolutions_of_mem_exercises (h : t.WellFormed) {ds : List Path}
    (he : b.exercises t pattern = .ok ds) (hd : d ∈ ds) : InSolutions b d := by
  obtain ⟨xs, rfl, -, hx⟩ := source_of_mem_exercises h he hd
  exact ⟨xs, hx, rfl⟩

theorem buildAll_confined (h : t.WellFormed) (b : Plan) (forced : Bool) (pattern : Option Text)
    (time : Int) : t.Confined (buildAll b t forced pattern time).tree (InPractices b t) := by
  refine buildAll_preserves (P := fun u => t.Confined u (InPractices b t))
    (fun ds he d hd u hu => ?_) (.refl h _)
  have hx := buildDirectory_confined hu.wellFormed b forced pattern time
    (inSolutions_of_mem_exercises h he hd)
  rw [inPractices_congr hu.place] at hx
  exact hu.trans hx

end Coursework.Build
