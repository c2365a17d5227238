import Coursework.Proofs.Roots
import Coursework.Proofs.Watch.Exercises

namespace Coursework

namespace Path

variable {p q base : Path} {place rel : List Text}

theorem descends_absolute (place : List Text) (p : Path) : (p.absolute place).Descends := by
  rw [Descends, absolute]
  split <;> exact not_mem_normalParts _

theorem anchor_absolute (place : List Text) (p : Path) : (p.absolute place).anchor ≠ .here := by
  rw [absolute]
  split
  · intro ha
    cases ha
  · assumption

theorem absolute_under (place : List Text) (p : Path) (hr : ['.', '.'] ∉ rel) :
    (p.under rel).absolute place = (p.absolute place).under rel := by
  obtain ⟨anchor, parts⟩ := p
  cases anchor <;> simp only [absolute, under, ← List.append_assoc, normalParts_append _ hr]

theorem not_within_absolute (h : ¬(base.anchor ≠ .here ∧ base.Descends)) (hq : q.anchor ≠ .here)
    (hd : q.Descends) : ¬Within base q := by
  rintro ⟨ha, hstart⟩
  exact h ⟨ha ▸ hq, fun hm => hd (hstart.subset hm)⟩

end Path

namespace Watch

open Build FileTree

variable {τ : Type} {b : Plan} {t : FileTree} {root p d : Path} {files ds : List Path}
  {forced : Bool} {time : Int} {l : Location} {xs rel : List Text}

/-- A file that the build of an exercise takes in, by the names that lead from the solutions root to
the exercise and from there to the file. -/
structure Scanned (b : Plan) (t : FileTree) (l : Location) (xs rel : List Text) : Prop where
  root : t.locate b.roots.solutions = .ok l
  exercise : xs = [] ∧ rel.length = 1 ∨ ∃ name, xs = [name] ∧ isExerciseName name = true
  directory : t.get? (l ++ xs) = some .directory
  file : ∃ content σ, t.get? (l ++ xs ++ rel) = some (.file content σ)
  selected : Selection.selects b.excludes.patterns none ⟨.here, rel⟩ = true

theorem exists_scanned (h : t.WellFormed) (hds : b.exercises t none = .ok ds) (hd : d ∈ ds)
    (hf : b.filesOf t d none = .ok files) (hp : p ∈ files) :
    ∃ l xs rel, Scanned b t l xs rel ∧ d = b.source xs ∧ p = b.source (xs ++ rel) := by
  obtain ⟨rfl, -⟩ := scanWith_ok hf
  rw [exercises_eq hds] at hd
  split at hd
  · next hroot =>
    obtain ⟨l, hl, hdir⟩ := hasDirectory_eq_true_iff.mp hroot
    rcases List.mem_append.mp hd with hd | hd
    · obtain rfl : d = b.roots.solutions := by
        split at hd
        · cases hd
        · exact List.mem_singleton.mp hd
      obtain ⟨rel, rfl, hfile, hlen, -, hsel⟩ := (mem_scan_located h hl).mp hp
      have hone : rel.length = 1 := hlen.resolve_left (by simp)
      refine ⟨l, [], rel, ⟨hl, .inl ⟨rfl, hone⟩, ?_, ?_, hsel⟩, ?_, rfl⟩
      · rwa [List.append_nil]
      · rwa [List.append_nil]
      · exact (Path.under_nil _).symm
    · obtain ⟨name, rfl, hg, hname⟩ := (mem_subdirectories_located h hl).mp hd
      have hlocate := h.locate_under hl (h.not_mem_of_get? hg) (List.cons_ne_nil _ _) hg
      obtain ⟨rel, rfl, hfile, -, -, hsel⟩ := (mem_scan_located h hlocate).mp hp
      refine ⟨l, [name], rel, ⟨hl, .inr ⟨name, rfl, hname⟩, hg, hfile, hsel⟩, rfl, ?_⟩
      exact Path.under_under _ _ _
  · cases hd

namespace Scanned

theorem rel_ne_nil (hs : Scanned b t l xs rel) : rel ≠ [] := by
  rintro rfl
  obtain ⟨c, σ, hg⟩ := hs.file
  rw [List.append_nil, hs.directory] at hg
  cases hg

theorem not_mem (hs : Scanned b t l xs rel) (h : t.WellFormed) : ['.', '.'] ∉ xs ++ rel := by
  obtain ⟨c, σ, hg⟩ := hs.file
  rw [List.append_assoc] at hg
  exact h.not_mem_of_get? hg

theorem mem_cache_iff (hs : Scanned b t l xs rel) :
    "__pycache__".toList ∈ xs ++ rel ↔ rel.getLast? = some "__pycache__".toList := by
  obtain ⟨init, name, rfl⟩ := (List.eq_nil_or_concat rel).resolve_left hs.rel_ne_nil
  have hinit : "__pycache__".toList ∉ init := by
    intro hm
    have hselected := hs.selected
    rw [Selection.selects, Bool.and_eq_true, Bool.and_eq_true, Bool.not_eq_true',
      List.concat_eq_append, List.dropLast_concat] at hselected
    exact List.any_eq_false.mp hselected.1.1 _ hm (by decide)
  have hxs : "__pycache__".toList ∉ xs := by
    rcases hs.exercise with ⟨rfl, -⟩ | ⟨x, rfl, hx⟩
    · exact List.not_mem_nil
    · rw [isExerciseName, Bool.and_eq_true, bne_iff_ne] at hx
      exact fun hm => hx.1 (List.mem_singleton.mp hm).symm
  simp only [List.concat_eq_append, List.mem_append, hxs, hinit, false_or, List.mem_singleton,
    List.getLast?_concat, Option.some.injEq, eq_comm]

theorem name_eq_cache_iff (hs : Scanned b t l xs rel) (root : Path) :
    (root.under (xs ++ rel)).name = "__pycache__".toList ↔ "__pycache__".toList ∈ xs ++ rel := by
  rw [hs.mem_cache_iff, Path.name, Path.under]
  obtain ⟨init, name, rfl⟩ := (List.eq_nil_or_concat rel).resolve_left hs.rel_ne_nil
  simp only [List.concat_eq_append, ← List.append_assoc, List.getLast?_concat, Option.getD_some,
    Option.some.injEq]

theorem exerciseFor (hs : Scanned b t l xs rel) (root : Path) :
    exerciseFor root (root.under (xs ++ rel)) =
      .ok (if (root.under (xs ++ rel)).name = "__pycache__".toList then none
        else some (root.under xs)) := by
  have hrelative : (root.under (xs ++ rel)).relativeTo root = .ok ⟨.here, xs ++ rel⟩ :=
    Path.relativeTo_eq_ok_iff.mpr ⟨rfl, rfl⟩
  rw [Watch.exerciseFor, hrelative]
  simp only [List.contains_iff_mem, hs.name_eq_cache_iff]
  split
  · rfl
  · rcases hs.exercise with ⟨rfl, hone⟩ | ⟨name, rfl, -⟩
    · obtain ⟨w, rfl⟩ := List.length_eq_one_iff.mp hone
      rw [Path.under_nil]
      rfl
    · obtain ⟨w, ws, rfl⟩ := List.exists_cons_of_ne_nil hs.rel_ne_nil
      rfl

theorem locate (hs : Scanned b t l xs rel) (h : t.WellFormed) :
    t.locate (b.source xs) = .ok (l ++ xs) := by
  by_cases hnil : xs = []
  · rw [hnil, List.append_nil, Plan.source, Path.under_nil]
    exact hs.root
  · exact h.locate_under hs.root (h.not_mem_of_get? hs.directory) hnil hs.directory

theorem locate_absolute (hs : Scanned b t l xs rel) (h : t.WellFormed) :
    t.locate ((b.source xs).absolute t.place) = .ok (l ++ xs) := by
  have hsite : l ++ xs = ((b.source xs).absolute t.place).parts :=
    h.locate_eq_site (hs.locate h)
  have hlanding : t.landing ((b.source xs).absolute t.place) = l ++ xs := by
    rw [landing, FileTree.base, if_neg (Path.anchor_absolute _ _), List.nil_append, hsite]
  rw [h.locate_of_get? (Path.descends_absolute _ _) (hlanding ▸ hs.directory), hlanding]

end Scanned

theorem practiceOf_error (hd : ¬Path.Within b.roots.solutions d) :
    b.roots.practiceOf d = .error ⟨d, b.roots.solutions⟩ :=
  Path.append_relativeTo_eq_error_iff.mpr ⟨hd, rfl⟩

theorem buildDirectory_stray (hd : ¬Path.Within b.roots.solutions d)
    (hf : b.filesOf t d none = .ok files) (hfiles : files ≠ [])
    (hstray : ∀ p ∈ files, ¬Path.Within b.roots.solutions p) :
    ∃ a, ∀ forced time, buildDirectory b t forced none time d = ⟨t, ⟨d, []⟩, some a⟩ := by
  simp only [buildDirectory]
  split
  · exact ⟨_, fun _ _ => rfl⟩
  · next name _ =>
    simp only [buildWithScript]
    cases loadScript t d name with
    | error e =>
      simp only [practiceOf_error hd]
      exact ⟨_, fun _ _ => rfl⟩
    | ok script =>
      obtain ⟨p, ps, rfl⟩ := List.exists_cons_of_ne_nil hfiles
      simp only [hf, buildFiles, buildFile, practiceOf_error (hstray p List.mem_cons_self)]
      exact ⟨_, fun _ _ => rfl⟩

theorem Scanned.stray (hs : Scanned b t l xs rel) (h : t.WellFormed)
    (hc : b.excludes.complete = true)
    (hroot : ¬(b.roots.solutions.anchor ≠ .here ∧ b.roots.solutions.Descends)) :
    let e := (b.source xs).absolute t.place
    ∃ a, ∀ forced time, buildDirectory b t forced none time e = ⟨t, ⟨e, []⟩, some a⟩ := by
  intro e
  have hstray : ∀ {rel}, ['.', '.'] ∉ rel → ¬Path.Within b.roots.solutions (e.under rel) :=
    fun hrel => Path.not_within_absolute hroot (Path.anchor_absolute t.place (b.source xs))
      ((Path.descends_absolute _ _).under hrel)
  have hself : ¬Path.Within b.roots.solutions e := by
    simpa only [Path.under_nil] using hstray List.not_mem_nil
  have hrecursive : (e != b.roots.solutions) = true := by
    rw [bne_iff_ne]
    exact fun he => hself ⟨congrArg Path.anchor he, he ▸ List.prefix_refl _⟩
  have hfiles : b.filesOf t e none = .ok (scan t b.excludes.patterns e none true) := by
    rw [Plan.filesOf, scanWith, hc, hrecursive, Bool.true_or, if_pos rfl]
  have hmem : ∀ q, q ∈ scan t b.excludes.patterns e none true ↔
      ∃ r, q = e.under r ∧ (∃ c σ, t.get? (l ++ xs ++ r) = some (.file c σ)) ∧
        (true = true ∨ r.length = 1) ∧ r ≠ [] ∧
        Selection.selects b.excludes.patterns none ⟨.here, r⟩ = true :=
    fun q => mem_scan_located h (hs.locate_absolute h)
  have hsaved : e.under rel ∈ scan t b.excludes.patterns e none true :=
    (hmem _).mpr ⟨rel, rfl, hs.file, .inl rfl, hs.rel_ne_nil, hs.selected⟩
  refine buildDirectory_stray hself hfiles (List.ne_nil_of_mem hsaved) fun q hq => ?_
  obtain ⟨r, rfl, ⟨c, σ, hg⟩, -⟩ := (hmem q).mp hq
  exact hstray (h.not_mem_of_get? hg)

section Session

variable [Zero τ] [Sub τ] [LT τ] [DecidableLT τ] {s : Session τ} {c : Change}

theorem rebuild_abort {g : Setting τ} {a : Abort} {interlude : Option Interlude}
    (h : (buildDirectory g.plan s.tree false none time d).abort = some a) :
    (s.rebuild g d interlude time).2 = some (.abort a) := by
  unfold Session.rebuild
  simp only [Session.print, h]

/-- A save of a file that a build takes in rebuilds the exercise of that file, under its absolute
path. If the solutions root starts at the root and no name leads up, that is the exercise itself.
Else the rebuild ends before anything is written. -/
theorem save_rebuilds (h : s.tree.WellFormed) (hds : b.exercises s.tree none = .ok ds)
    (hd : d ∈ ds) (hf : b.filesOf s.tree d none = .ok files) (hp : p ∈ files)
    (hc : c.counts = true)
    (hsaved : (Path.ofText c.path).absolute s.tree.place = p.absolute s.tree.place)
    (timing : Timing τ) (interlude : Option Interlude) (time : Int) :
    let g := Setting.ofPlan b s.tree.place timing
    let e := d.absolute s.tree.place
    (p.name = "__pycache__".toList → s.change g c interlude time = (s, none)) ∧
    (p.name ≠ "__pycache__".toList → s.change g c interlude time =
      match s.state.react g.timing.window (s.now g) e with
      | .wait delay => (s.schedule e delay, none)
      | .rebuild => s.rebuild g e interlude time) ∧
    (b.roots.solutions.anchor ≠ .here ∧ b.roots.solutions.Descends → e = d) ∧
    (¬(b.roots.solutions.anchor ≠ .here ∧ b.roots.solutions.Descends) → ∃ a,
      (∀ forced time,
        buildDirectory b s.tree forced none time e = ⟨s.tree, ⟨e, []⟩, some a⟩) ∧
      (s.rebuild g e interlude time).2 = some (.abort a)) := by
  intro g e
  obtain ⟨l, xs, rel, hs, rfl, rfl⟩ := exists_scanned h hds hd hf hp
  have hnames : ['.', '.'] ∉ xs ++ rel := hs.not_mem h
  have hxs : ['.', '.'] ∉ xs := fun hm => hnames (List.mem_append_left _ hm)
  have hne : xs ++ rel ≠ [] := List.append_ne_nil_of_right_ne_nil _ hs.rel_ne_nil
  have hname : (g.root.under (xs ++ rel)).name = (b.source (xs ++ rel)).name := by
    rw [Plan.source, Path.name, Path.name, Path.under, Path.under,
      List.getLast?_append_of_ne_nil _ hne, List.getLast?_append_of_ne_nil _ hne]
  -- the path of the save is that of the file, put below the watched root
  have hobserve : exerciseFor g.root ((Path.ofText c.path).absolute s.tree.place) =
      .ok (if (b.source (xs ++ rel)).name = "__pycache__".toList then none else some e) := by
    have hplace : (b.source (xs ++ rel)).absolute s.tree.place = g.root.under (xs ++ rel) :=
      Path.absolute_under _ _ hnames
    have hown : e = g.root.under xs := Path.absolute_under _ _ hxs
    rw [hsaved, hplace, hs.exerciseFor, hname, hown]
  refine ⟨fun hcache => ?_, fun hcache => ?_, fun hplain => ?_, fun hnot => ?_⟩
  · rw [Session.change, Session.observe, if_pos hc, hobserve, if_pos hcache]
  · rw [Session.change, Session.observe, if_pos hc, hobserve, if_neg hcache]
    simp only
    cases s.state.react g.timing.window (s.now g) e <;> rfl
  · exact Path.absolute_of_anchored (hplain.2.under hxs) hplain.1 _
  · obtain ⟨a, ha⟩ := hs.stray h (complete_of_filesOf hf (List.ne_nil_of_mem hp)) hnot
    exact ⟨a, ha, rebuild_abort (by rw [show g.plan = b from rfl, ha])⟩

end Session

def savedTree : FileTree where
  entries := [
    (["w"], .directory),
    (["w", "s"], .directory),
    (["w", "s", "l"], .directory),
    (["w", "s", "l", "a.txt"], .file [] 5),
    (["w", "x"], .directory)]

def savedPlan (project : Text) : Plan where
  roots := Roots.ofNames (Path.ofText project) "s" "p" "res://"

def savedSession : Session Int := { tree := savedTree, clock := 5000 }

def savedSetting (project : Text) : Setting Int :=
  Setting.ofPlan (savedPlan project) savedSession.tree.place ⟨1000, id⟩

def savedFile : Change := ⟨"modified", "/w/s/l/a.txt", [], false⟩

theorem save_rebuilds_own : savedTree.WellFormed ∧ savedFile.counts = true ∧
    savedSession.change (savedSetting "/w") savedFile none 6 =
      savedSession.rebuild (savedSetting "/w") ((savedPlan "/w").source ["l"]) none 6 := by
  have hwf : savedTree.WellFormed := by decide +kernel
  have hds : (savedPlan "/w").exercises savedTree none = .ok [(savedPlan "/w").source ["l"]] := by
    decide +kernel
  have hf : (savedPlan "/w").filesOf savedTree ((savedPlan "/w").source ["l"]) none =
      .ok [(savedPlan "/w").source ["l", "a.txt"]] := by decide +kernel
  have hreact : savedSession.state.react (savedSetting "/w").timing.window
      (savedSession.now (savedSetting "/w")) ((savedPlan "/w").source ["l"]) = .rebuild := by
    decide +kernel
  obtain ⟨-, hchange, hown, -⟩ := save_rebuilds (s := savedSession) (c := savedFile) hwf hds
    List.mem_cons_self hf List.mem_cons_self (by decide) (by decide +kernel) ⟨1000, id⟩ none 6
  have hrebuild := hchange (by decide +kernel)
  rw [savedSetting] at hreact
  rw [hown (by decide), hreact] at hrebuild
  exact ⟨hwf, by decide, hrebuild⟩

theorem save_not_rebuilt :
    (savedPlan "w").exercises savedTree none = .ok [(savedPlan "w").source ["l"]] ∧
    (savedPlan "w").filesOf savedTree ((savedPlan "w").source ["l"]) none =
      .ok [(savedPlan "w").source ["l", "a.txt"]] ∧
    (buildDirectory (savedPlan "w") savedTree false none 6
      ((savedPlan "w").source ["l"])).abort = none ∧
    (buildDirectory (savedPlan "w") savedTree false none 6
      ((savedPlan "w").source ["l"])).result.ok = true ∧
    ∀ project ∈ ["w".toList, "/w/x/..".toList],
      (savedSession.change (savedSetting project) savedFile none 6).2 =
        some (.abort (.notBelow
          ⟨Path.ofText "/w/s/l/a.txt", (savedPlan project).roots.solutions⟩)) := by
  decide +kernel

end Watch

end Coursework
