import Coursework.Proofs.Build.Pattern

namespace Coursework.Build

variable {b : Plan} {t : FileTree} {d p : Path} {rel dirs : List Text} {name : Text}
  {l : Location} {ds : List Path} {recursive : Bool}

def HasSolution (b : Plan) (t : FileTree) (rel : List Text) : Prop :=
  ∃ l c τ, t.locate b.roots.solutions = .ok l ∧ t.get? (l ++ rel) = some (.file c τ)

def Visited : List Text → Prop
  | [] => True
  | top :: dirs => top ≠ "__pycache__" ∧ top.head? ≠ some '.' ∧
    ∀ name ∈ dirs, name ∉ Selection.cacheDirectories

def unit (b : Plan) (t : FileTree) (d : Path) : List Path :=
  scan t b.excludes.patterns d none (d != b.roots.solutions)

theorem isExerciseName_iff : isExerciseName name = true ↔
    name ≠ "__pycache__" ∧ name.head? ≠ some '.' := by
  simp [isExerciseName]

theorem selects_none_concat (excludes dirs : List Text) (name : Text) :
    Selection.selects excludes none ⟨.here, dirs ++ [name]⟩ = true ↔
      Selection.excluded excludes name = false ∧ ∀ d ∈ dirs, d ∉ Selection.cacheDirectories := by
  simp [Selection.selects, Selection.picks?, Path.name, and_comm]

theorem filesOfAll_ok {es : List (Path × List Path)} (h : b.filesOfAll t none ds = .ok es) :
    es = ds.map fun d => (d, unit b t d) := by
  induction ds generalizing es with
  | nil => exact (Except.ok.inj h).symm
  | cons d ds ih =>
    rw [Plan.filesOfAll] at h
    cases hf : b.filesOf t d none with
    | error e => simp [hf, bind, Except.bind] at h
    | ok files =>
      cases hr : b.filesOfAll t none ds with
      | error e => simp [hf, hr, bind, Except.bind] at h
      | ok rest =>
        simp only [hf, hr, bind, Except.bind, pure, Except.pure, Except.ok.injEq] at h
        rw [← h, ih hr, (scanWith_ok hf).1, List.map_cons, unit]

theorem filesOfAll_complete (hx : b.excludes.complete = true) (ds : List Path) :
    b.filesOfAll t none ds = .ok (ds.map fun d => (d, unit b t d)) := by
  induction ds with
  | nil => rfl
  | cons d ds ih =>
    have hf : b.filesOf t d none = .ok (unit b t d) := by
      rw [Plan.filesOf, scanWith, hx, Bool.true_or, if_pos rfl, unit]
    rw [Plan.filesOfAll, hf, ih]
    rfl

theorem exercises_complete (hx : b.excludes.complete = true) :
    ∃ ds, b.exercises t none = .ok ds := by
  rw [Plan.exercises]
  split
  · rw [scanWith, hx, Bool.true_or, if_pos rfl]
    exact ⟨_, rfl⟩
  · exact ⟨[], rfl⟩

theorem files_eq (he : b.exercises t none = .ok ds) : ds.flatMap (unit b t) =
    if t.hasDirectory b.roots.solutions then
      scan t b.excludes.patterns b.roots.solutions none false ++
        (subdirectories t b.roots.solutions).flatMap
          fun d => scan t b.excludes.patterns d none true
    else [] := by
  rw [exercises_eq he]
  split
  · have hroot : unit b t b.roots.solutions =
        scan t b.excludes.patterns b.roots.solutions none false := by
      rw [unit, bne_self_eq_false]
    have hrest : (subdirectories t b.roots.solutions).flatMap (unit b t) =
        (subdirectories t b.roots.solutions).flatMap
          fun d => scan t b.excludes.patterns d none true :=
      List.flatMap_congr fun d hd => by
        rw [unit, bne_iff_ne.mpr (ne_of_mem_subdirectories hd)]
    rw [List.flatMap_append, hrest]
    cases hf : scan t b.excludes.patterns b.roots.solutions none false with
    | nil => rfl
    | cons p ps =>
      rw [List.isEmpty_cons, if_neg Bool.false_ne_true, List.flatMap_singleton, hroot, hf]
  · rfl

theorem mem_scan_root (h : t.WellFormed) (hl : t.locate b.roots.solutions = .ok l) :
    p ∈ scan t b.excludes.patterns b.roots.solutions none false ↔
      ∃ name, p = b.source [name] ∧ (∃ c τ, t.get? (l ++ [name]) = some (.file c τ)) ∧
        Selection.excluded b.excludes.patterns name = false := by
  rw [mem_scan_located h hl]
  constructor
  · rintro ⟨rel, rfl, hf, hlen, -, hs⟩
    obtain ⟨name, rfl⟩ := List.length_eq_one_iff.mp (hlen.resolve_left Bool.false_ne_true)
    exact ⟨name, rfl, hf, ((selects_none_concat _ [] name).mp hs).1⟩
  · rintro ⟨name, rfl, hf, hx⟩
    exact ⟨[name], rfl, hf, .inr rfl, by simp,
      (selects_none_concat _ [] name).mpr ⟨hx, by simp⟩⟩

theorem mem_scan_children (h : t.WellFormed) (hl : t.locate b.roots.solutions = .ok l) :
    (∃ d ∈ subdirectories t b.roots.solutions, p ∈ scan t b.excludes.patterns d none true) ↔
      ∃ top dirs name, p = b.source (top :: dirs ++ [name]) ∧
        (∃ c τ, t.get? (l ++ (top :: dirs ++ [name])) = some (.file c τ)) ∧
        Selection.excluded b.excludes.patterns name = false ∧ Visited (top :: dirs) := by
  constructor
  · rintro ⟨d, hd, hp⟩
    obtain ⟨top, rfl, hg, htop⟩ := (mem_subdirectories_located h hl).mp hd
    have hld := h.locate_under hl (h.not_mem_of_get? hg) (by simp) hg
    obtain ⟨rel, rfl, hf, -, hne, hs⟩ := (mem_scan_located h hld).mp hp
    obtain ⟨dirs, name, rfl⟩ := (List.eq_nil_or_concat rel).resolve_left hne
    rw [List.concat_eq_append] at hf hs ⊢
    obtain ⟨hx, hdirs⟩ := (selects_none_concat _ _ _).mp hs
    refine ⟨top, dirs, name, Path.under_under _ _ _, ?_, hx, ?_⟩
    · rwa [List.append_assoc, List.singleton_append, ← List.cons_append] at hf
    · exact ⟨(isExerciseName_iff.mp htop).1, (isExerciseName_iff.mp htop).2, hdirs⟩
  · rintro ⟨top, dirs, name, rfl, ⟨c, τ, hf⟩, hx, hpy, hdot, hdirs⟩
    have hg : t.get? (l ++ [top]) = some .directory := by
      rw [List.cons_append, List.append_cons] at hf
      exact h.above (by simp) hf
    have hld := h.locate_under hl (h.not_mem_of_get? hg) (by simp) hg
    refine ⟨b.source [top], (mem_subdirectories_located h hl).mpr
      ⟨top, rfl, hg, isExerciseName_iff.mpr ⟨hpy, hdot⟩⟩, ?_⟩
    refine (mem_scan_located h hld).mpr ⟨dirs ++ [name], ?_, ⟨c, τ, ?_⟩, .inl rfl, by simp,
      (selects_none_concat _ _ _).mpr ⟨hx, hdirs⟩⟩
    · exact (Path.under_under b.roots.solutions [top] (dirs ++ [name])).symm
    · simpa using hf

theorem mem_files_iff (h : t.WellFormed) (he : b.exercises t none = .ok ds) :
    p ∈ ds.flatMap (unit b t) ↔ ∃ dirs name, p = b.source (dirs ++ [name]) ∧
      HasSolution b t (dirs ++ [name]) ∧ Selection.excluded b.excludes.patterns name = false ∧
      Visited dirs := by
  rw [files_eq he]
  by_cases hdir : t.hasDirectory b.roots.solutions = true
  · obtain ⟨l, hl, -⟩ := FileTree.hasDirectory_eq_true_iff.mp hdir
    have hsol : ∀ rel, HasSolution b t rel ↔ ∃ c τ, t.get? (l ++ rel) = some (.file c τ) := by
      intro rel
      constructor
      · rintro ⟨m, c, τ, hm, hg⟩
        obtain rfl := Except.ok.inj (hl.symm.trans hm)
        exact ⟨c, τ, hg⟩
      · rintro ⟨c, τ, hg⟩
        exact ⟨l, c, τ, hl, hg⟩
    rw [if_pos hdir, List.mem_append, List.mem_flatMap, mem_scan_root h hl, mem_scan_children h hl]
    simp only [hsol]
    constructor
    · rintro (⟨name, hp, hf, hx⟩ | ⟨top, dirs, name, hp, hf, hx, hv⟩)
      · exact ⟨[], name, hp, hf, hx, trivial⟩
      · exact ⟨top :: dirs, name, hp, hf, hx, hv⟩
    · rintro ⟨dirs, name, hp, hf, hx, hv⟩
      cases dirs with
      | nil => exact .inl ⟨name, hp, hf, hx⟩
      | cons top dirs => exact .inr ⟨top, dirs, name, hp, hf, hx, hv⟩
  · rw [if_neg hdir]
    refine ⟨fun hm => absurd hm List.not_mem_nil, ?_⟩
    rintro ⟨dirs, name, -, ⟨l, c, τ, hl, hg⟩, -⟩
    refine absurd ?_ hdir
    rw [FileTree.hasDirectory, FileTree.entry, hl]
    simp only [h.above (by simp) hg]
    rfl

theorem home_of_mem_unit (h : t.WellFormed) {xs : List Text} (hx : xs.length ≤ 1)
    (hp : p ∈ unit b t (b.source xs)) : ∃ rel, p = b.source rel ∧ b.home rel = b.source xs := by
  obtain ⟨rel, rfl, hne, -, -, hlen⟩ := under_of_mem_scan h hp
  refine ⟨xs ++ rel, Path.under_under _ _ _, home_append hx hne fun hd => hlen.resolve_left ?_⟩
  rw [hd, bne_self_eq_false]
  exact Bool.false_ne_true

theorem nodup_files (h : t.WellFormed) (he : b.exercises t none = .ok ds) :
    (ds.flatMap (unit b t)).Nodup := by
  rw [List.nodup_flatMap]
  refine ⟨fun d _ => nodup_scan h _ _ _ _, ?_⟩
  refine (nodup_exercises h he).imp_of_mem fun {d e} hd he' hne p hp hq => hne ?_
  -- a path has one home, which is the exercise that lists it
  obtain ⟨xs, rfl, hxs, -⟩ := source_of_mem_exercises h he hd
  obtain ⟨ys, rfl, hys, -⟩ := source_of_mem_exercises h he he'
  obtain ⟨rel, rfl, hhome⟩ := home_of_mem_unit h hxs hp
  obtain ⟨rel', hrel, hhome'⟩ := home_of_mem_unit h hys hq
  rw [← hhome, ← hhome', source_inj.mp hrel]

/-- Without a pattern, the exercises have each solution once that a build takes up, and each lists
its files in the order of their paths. A solution is left out for its name, for the name of its
exercise or for a cache among the directories further down. -/
theorem solutions_in_one_exercise (h : t.WellFormed) :
    (b.excludes.complete = true → ∃ es, b.selection t none = .ok es) ∧
    ∀ es, b.selection t none = .ok es →
      b.exercises t none = .ok (es.map Prod.fst) ∧
      (∀ e ∈ es, e.2 = scan t b.excludes.patterns e.1 none (e.1 != b.roots.solutions)) ∧
      (es.flatMap Prod.snd).Nodup ∧
      (∀ p, p ∈ es.flatMap Prod.snd ↔ ∃ dirs name, p = b.source (dirs ++ [name]) ∧
        HasSolution b t (dirs ++ [name]) ∧ Selection.excluded b.excludes.patterns name = false ∧
        Visited dirs) ∧
      ∀ e ∈ es, e.2.Pairwise fun p q => p.parts < q.parts := by
  constructor
  · intro hx
    obtain ⟨ds, he⟩ := exercises_complete hx
    exact ⟨_, by rw [Plan.selection, he]; exact filesOfAll_complete hx ds⟩
  · intro es hes
    rw [Plan.selection] at hes
    cases he : b.exercises t none with
    | error e =>
      rw [he] at hes
      cases hes
    | ok ds =>
      rw [he] at hes
      obtain rfl := filesOfAll_ok hes
      have hfiles : (ds.map fun d => (d, unit b t d)).flatMap Prod.snd = ds.flatMap (unit b t) :=
        List.flatMap_map ..
      rw [hfiles]
      refine ⟨by simp [Function.comp_def], fun e hm => ?_, nodup_files h he, fun p => mem_files_iff h he,
        fun e hm => ?_⟩
      · obtain ⟨d, -, rfl⟩ := List.mem_map.mp hm
        rfl
      · obtain ⟨d, -, rfl⟩ := List.mem_map.mp hm
        exact increasing_scan h _ _ _ _

def scatteredTree : FileTree where
  entries := [
    (["w"], .directory),
    (["w", "s"], .directory),
    (["w", "s", "readme"], .file [] 5),
    (["w", "s", ".godot"], .directory),
    (["w", "s", ".godot", "x"], .file [] 5),
    (["w", "s", "lesson"], .directory),
    (["w", "s", "lesson", ".git"], .directory),
    (["w", "s", "lesson", ".git", "c"], .file [] 5),
    (["w", "s", "lesson", ".import"], .directory),
    (["w", "s", "lesson", ".import", "y"], .file [] 5)]

def scatteredPlan : Plan where
  roots := Roots.ofNames (Path.ofText "/w") "s" "p" "res://"

def scatteredFiles : List (Path × List Path) :=
  [(scatteredPlan.source [], [scatteredPlan.source ["readme"]]),
    (scatteredPlan.source ["lesson"], [scatteredPlan.source ["lesson", ".git", "c"]])]

theorem solutions_in_one_exercise_scattered : scatteredTree.WellFormed ∧
    scatteredPlan.selection scatteredTree none = .ok scatteredFiles ∧
    (scatteredFiles.flatMap Prod.snd).Nodup ∧
    ∀ p, p ∈ scatteredFiles.flatMap Prod.snd ↔ ∃ dirs name,
      p = scatteredPlan.source (dirs ++ [name]) ∧
      HasSolution scatteredPlan scatteredTree (dirs ++ [name]) ∧
      Selection.excluded scatteredPlan.excludes.patterns name = false ∧ Visited dirs := by
  have hwf : scatteredTree.WellFormed := by decide +kernel
  have hs : scatteredPlan.selection scatteredTree none = .ok scatteredFiles := by decide +kernel
  obtain ⟨-, hall⟩ := solutions_in_one_exercise hwf (b := scatteredPlan)
  obtain ⟨-, -, hnodup, hmem, -⟩ := hall _ hs
  exact ⟨hwf, hs, hnodup, hmem⟩

end Coursework.Build
