import Mathlib.Data.String.Basic
import Coursework.Proofs.Build.Frame

namespace Coursework

namespace Path

theorem le_iff {p q : Path} : le p q = true ↔ p.parts ≤ q.parts := by
  simp [le]

theorem pairwise_mergeSort (ps : List Path) :
    (ps.mergeSort le).Pairwise fun p q => le p q = true := by
  apply List.pairwise_mergeSort
  · intro p q r hpq hqr
    rw [le_iff] at *
    exact le_trans hpq hqr
  · intro p q
    rw [Bool.or_eq_true, le_iff, le_iff]
    exact le_total _ _

theorem eq_of_pairwise {ps qs : List Path} {a : Anchor} (ha : ∀ p ∈ ps, p.anchor = a)
    (hps : ps.Pairwise fun p q => le p q = true) (hqs : qs.Pairwise fun p q => le p q = true)
    (h : ps.Perm qs) : ps = qs := by
  refine h.eq_of_pairwise (fun p q hp hq hpq hqp => ?_) hps hqs
  rw [le_iff] at hpq hqp
  have hanchor : p.anchor = q.anchor := (ha p hp).trans (ha q (h.mem_iff.mpr hq)).symm
  have hparts : p.parts = q.parts := le_antisymm hpq hqp
  cases p
  cases q
  simp_all

theorem relativeTo_under (d : Path) (rel : List Text) :
    (d.under rel).relativeTo d = .ok ⟨.here, rel⟩ :=
  relativeTo_eq_ok_iff.mpr ⟨rfl, rfl⟩

end Path

namespace Selection

def picksIn (pattern : Text) (directory file : Path) : Bool :=
  match file.relativeTo directory with
  | .ok relative => picks pattern relative
  | .error _ => false

theorem selects_some {pattern : Text} (hp : pattern ≠ []) (excludes : List Text) (rel : Path) :
    selects excludes (some pattern) rel =
      (selects excludes none rel && picks pattern rel) := by
  have he : pattern.isEmpty = false := by simp [hp]
  simp [selects, picks?, he]

end Selection

namespace Build

variable {b : Plan} {t u : FileTree} {d p : Path} {x pattern : Text} {forced : Bool} {time : Int}
  {ds : List Path} {selected : Option Text}

/-! ### Scans -/

theorem anchor_of_mem_scan {excludes : List Text} {recursive : Bool}
    (hp : p ∈ scan t excludes d selected recursive) : p.anchor = d.anchor := by
  rw [scan] at hp
  split at hp
  · cases hp
  · split at hp
    · rw [List.mem_mergeSort, List.mem_filterMap] at hp
      obtain ⟨f, -, hp⟩ := hp
      simp only [Option.ite_none_right_eq_some, Option.some.injEq] at hp
      rw [← hp.2]
    · cases hp

theorem pairwise_scan (t : FileTree) (excludes : List Text) (d : Path) (selected : Option Text)
    (recursive : Bool) :
    (scan t excludes d selected recursive).Pairwise fun p q => Path.le p q = true := by
  rw [scan]
  split
  · exact .nil
  · split
    · exact Path.pairwise_mergeSort _
    · exact .nil

theorem scan_some (hp : pattern ≠ []) (excludes : List Text) (recursive : Bool) :
    scan t excludes d (some pattern) recursive =
      (scan t excludes d none recursive).filter (Selection.picksIn pattern d) := by
  -- both sides are sorted, so it is enough that they hold the same paths
  refine Path.eq_of_pairwise (fun p hm => anchor_of_mem_scan hm) (pairwise_scan _ _ _ _ _)
    ((pairwise_scan _ _ _ _ _).filter _) ?_
  rw [scan, scan]
  split
  · exact .nil
  · split
    · refine (List.mergeSort_perm _ _).trans (.trans ?_ ((List.mergeSort_perm _ _).filter _).symm)
      rw [List.filter_filterMap]
      refine .of_eq (List.filterMap_congr fun f _ => ?_)
      obtain ⟨rel, file⟩ := f
      have hr : (⟨d.anchor, d.parts ++ rel⟩ : Path).relativeTo d = .ok ⟨.here, rel⟩ :=
        Path.relativeTo_under d rel
      have hin : Selection.picksIn pattern d ⟨d.anchor, d.parts ++ rel⟩ =
          Selection.picks pattern ⟨.here, rel⟩ := by
        rw [Selection.picksIn, hr]
      simp only [Selection.selects_some hp, Bool.and_eq_true, ← and_assoc]
      split
      · next hc => rw [if_pos hc.1, Option.filter_some, hin, if_pos hc.2]
      · next hc =>
        split
        · next hc' =>
          have hno : ¬Selection.picks pattern ⟨.here, rel⟩ = true := fun hp => hc ⟨hc', hp⟩
          rw [Option.filter_some, hin, if_neg hno]
        · rfl
    · exact .nil

theorem nodup_scan (h : t.WellFormed) (excludes : List Text) (d : Path) (selected : Option Text)
    (recursive : Bool) : (scan t excludes d selected recursive).Nodup := by
  rw [scan]
  split
  · exact .nil
  · split
    · rw [List.nodup_mergeSort, List.Nodup, List.pairwise_filterMap]
      refine (List.pairwise_map.mp (h.nodup_filesBelow _)).imp fun {e f} hne p hp q hq hpq => hne ?_
      obtain ⟨rel, e⟩ := e
      obtain ⟨rel', f⟩ := f
      simp only [Option.ite_none_right_eq_some, Option.some.injEq] at hp hq
      have hparts := congrArg Path.parts (hp.2.trans (hpq.trans hq.2.symm))
      exact List.append_cancel_left hparts
    · exact .nil

theorem increasing_scan (h : t.WellFormed) (excludes : List Text) (d : Path)
    (selected : Option Text) (recursive : Bool) :
    (scan t excludes d selected recursive).Pairwise fun p q => p.parts < q.parts := by
  have hle := pairwise_scan t excludes d selected recursive
  have hne := nodup_scan h excludes d selected recursive
  refine (hle.and hne).imp_of_mem fun {p q} hp hq ⟨hpq, hne⟩ => ?_
  refine lt_of_le_of_ne (Path.le_iff.mp hpq) fun hparts => hne ?_
  have hanchor := (anchor_of_mem_scan hp).trans (anchor_of_mem_scan hq).symm
  cases p
  cases q
  exact Path.mk.injEq .. |>.mpr ⟨hanchor, hparts⟩

theorem scan_congr {excludes : List Text} {recursive : Bool} (ht : t.WellFormed)
    (hu : u.WellFormed) (hm : ∀ p, p ∈ scan u excludes d selected recursive ↔
      p ∈ scan t excludes d selected recursive) :
    scan u excludes d selected recursive = scan t excludes d selected recursive := by
  refine Path.eq_of_pairwise (fun p hm => anchor_of_mem_scan hm) (pairwise_scan _ _ _ _ _)
    (pairwise_scan _ _ _ _ _) ?_
  rw [List.perm_ext_iff_of_nodup (nodup_scan hu _ _ _ _) (nodup_scan ht _ _ _ _)]
  exact hm

/-! ### What exercises are made of -/

theorem filesOf_some (hp : pattern ≠ []) : b.filesOf t d (some pattern) =
    (b.filesOf t d none).map fun files => files.filter (Selection.picksIn pattern d) := by
  rw [Plan.filesOf, Plan.filesOf, scanWith, scanWith, scan_some hp]
  split <;> rfl

def Plan.filesOfAll (b : Plan) (t : FileTree) (selected : Option Text) :
    List Path → Except Settings.Misfit (List (Path × List Path))
  | [] => .ok []
  | d :: ds => do
    let files ← b.filesOf t d selected
    let rest ← b.filesOfAll t selected ds
    return (d, files) :: rest

def Plan.selection (b : Plan) (t : FileTree) (selected : Option Text) :
    Except Settings.Misfit (List (Path × List Path)) := do
  b.filesOfAll t selected (← b.exercises t selected)

def narrow (pattern : Text) (es : List (Path × List Path)) : List (Path × List Path) :=
  (es.map fun e => (e.1, e.2.filter (Selection.picksIn pattern e.1))).filter fun e => !e.2.isEmpty

theorem withFiles_eq (hp : pattern ≠ []) : b.withFiles t pattern ds =
    (b.filesOfAll t none ds).map fun es => (narrow pattern es).map Prod.fst := by
  induction ds with
  | nil => rfl
  | cons d ds ih =>
    rw [Plan.withFiles, Plan.filesOfAll, filesOf_some hp, ih]
    cases b.filesOf t d none with
    | error e => rfl
    | ok files =>
      cases b.filesOfAll t none ds with
      | error e => rfl
      | ok rest =>
        simp only [Except.map, bind, Except.bind, pure, Except.pure, narrow, List.map_cons,
          List.filter_cons]
        cases files.filter (Selection.picksIn pattern d) <;> rfl

theorem filesOfAll_narrow (hp : pattern ≠ []) {es : List (Path × List Path)}
    (h : b.filesOfAll t none ds = .ok es) :
    b.filesOfAll t (some pattern) ((narrow pattern es).map Prod.fst) = .ok (narrow pattern es) := by
  induction ds generalizing es with
  | nil =>
    rw [← Except.ok.inj h]
    rfl
  | cons d ds ih =>
    rw [Plan.filesOfAll] at h
    cases hf : b.filesOf t d none with
    | error e => simp [hf, bind, Except.bind] at h
    | ok files =>
      cases hr : b.filesOfAll t none ds with
      | error e => simp [hf, hr, bind, Except.bind] at h
      | ok rest =>
        simp only [hf, hr, bind, Except.bind, pure, Except.pure, Except.ok.injEq] at h
        rw [← h, narrow, List.map_cons, List.filter_cons]
        have hrest := ih hr
        rw [narrow] at hrest
        split
        · rw [List.map_cons, Plan.filesOfAll, filesOf_some hp, hf, hrest]
          rfl
        · exact hrest

theorem exercises_some (hp : pattern ≠ []) :
    b.exercises t (some pattern) = (b.exercises t none).bind (b.withFiles t pattern) := by
  obtain ⟨c, cs, rfl⟩ := List.exists_cons_of_ne_nil hp
  rw [Plan.exercises, Plan.exercises]
  split
  · cases scanWith t b.excludes b.roots.solutions none false <;> rfl
  · rfl

theorem selection_some (hp : pattern ≠ []) :
    b.selection t (some pattern) = (b.selection t none).map (narrow pattern) := by
  rw [Plan.selection, Plan.selection, exercises_some hp]
  cases b.exercises t none with
  | error e => rfl
  | ok ds =>
    change (b.withFiles t pattern ds).bind (b.filesOfAll t (some pattern)) =
      (b.filesOfAll t none ds).map (narrow pattern)
    rw [withFiles_eq hp]
    cases h : b.filesOfAll t none ds with
    | error e => rfl
    | ok es => exact filesOfAll_narrow hp h

/-! ### What builds report -/

theorem buildFile_source {script : Option SceneScript} {r : FileResult}
    (h : buildFile b t script forced p time = ⟨u, .ok r⟩) : r.source = p := by
  rw [buildFile] at h
  split at h
  · cases h
  · split at h
    · rw [← Except.ok.inj (Done.mk.inj h).2]
    · cases regenerates h <;> rfl

theorem buildFiles_sources {script : Option SceneScript} {ps : List Path}
    (ha : (buildFiles b script forced time t ps).abort = none) :
    let rs := (buildFiles b script forced time t ps).result
    rs.map FileResult.source <+: ps ∧
      ((∀ r ∈ rs, r.failed = false) → rs.map FileResult.source = ps) := by
  induction ps generalizing t with
  | nil => exact ⟨List.prefix_refl _, fun _ => rfl⟩
  | cons p ps ih =>
    rw [buildFiles] at ha ⊢
    cases hr : buildFile b t script forced p time with
    | mk u x =>
      cases x with
      | error a => simp [hr] at ha
      | ok r =>
        have hs := buildFile_source hr
        simp only [hr] at ha ⊢
        by_cases hf : r.failed = true
        · simp [hf, hs]
        · simp only [hf, Bool.false_eq_true, if_false] at ha ⊢
          obtain ⟨hinit, hall⟩ := ih ha
          rw [List.map_cons, hs]
          refine ⟨(List.prefix_cons_inj p).mpr hinit, fun hok => ?_⟩
          rw [hall fun r hr => hok r (List.mem_cons_of_mem _ hr)]

structure Covers (b : Plan) (e : Path × List Path) (r : DirectoryResult) : Prop where
  directory : r.directory = e.1
  whole : r.ok = true → r.files.map FileResult.source = e.2
  part : r.ok = false → r.files.map FileResult.source <+: e.2 ∨
    r.files.map FileResult.source = [b.scriptIn e.1]

theorem buildDirectory_covers {files : List Path} (hf : b.filesOf t d selected = .ok files)
    (ha : (buildDirectory b t forced selected time d).abort = none) :
    Covers b (d, files) (buildDirectory b t forced selected time d).result := by
  obtain ⟨name, -, ⟨e, q, -, hr⟩ | ⟨script, files', -, hf', hfiles, hr⟩⟩ := buildDirectory_cases ha
  · rw [hr]
    refine ⟨rfl, fun hok => ?_, fun _ => .inr rfl⟩
    simp [DirectoryResult.ok, FileResult.failed] at hok
  · rw [hr]
    obtain rfl := Except.ok.inj (hf.symm.trans hf')
    obtain ⟨hinit, hall⟩ := buildFiles_sources hfiles
    refine ⟨rfl, fun hok => ?_, fun _ => .inl hinit⟩
    rw [DirectoryResult.ok, Bool.not_eq_true', List.any_eq_false] at hok
    exact hall fun r hr => Bool.eq_false_iff.mpr (hok r hr)

theorem filesOf_of_mem_scan (h : t.WellFormed) (hu : u.WellFormed)
    (hm : ∀ (selected : Option Text) recursive p,
      p ∈ scan u b.excludes.patterns d selected recursive ↔
        p ∈ scan t b.excludes.patterns d selected recursive) :
    b.filesOf u d selected = b.filesOf t d selected := by
  have hscan := fun (selected : Option Text) recursive => scan_congr h hu (hm selected recursive)
  rw [Plan.filesOf, Plan.filesOf, scanWith, scanWith, hscan, hscan]

theorem filesOf_congr (h : t.WellFormed) (hb : Plan.Separate b.roots)
    (hx : t.Confined u (InPractices b t)) (hd : InSolutions b d) :
    b.filesOf u d selected = b.filesOf t d selected := by
  obtain ⟨xs, hxs, rfl⟩ := hd
  have hdesc : (b.source xs).Descends := hb.solutions.under hxs
  have hout : ∀ rel, ¬InPractices b t (t.landing (b.source xs) ++ rel) := fun rel hin => by
    rw [InPractices, h.site_eq_landing hb.practices, ← Path.under_nil b.roots.practices,
      ← FileTree.landing_under, Plan.source, Path.under_under] at hin
    exact hb.apart' t hin
  have hg : ∀ rel c τ, u.get? (t.landing (b.source xs) ++ rel) = some (.file c τ) ↔
      t.get? (t.landing (b.source xs) ++ rel) = some (.file c τ) :=
    fun rel c τ => hx.file_iff (hout rel)
  apply filesOf_of_mem_scan h hx.wellFormed
  intro selected recursive p
  rw [mem_scan_iff hx.wellFormed hdesc, mem_scan_iff h hdesc]
  simp only [Taken, FileTree.landing_congr hx.place, hg]

theorem filesOfAll_congr (h : t.WellFormed) (hb : Plan.Separate b.roots)
    (hx : t.Confined u (InPractices b t)) (hds : ∀ d ∈ ds, InSolutions b d) :
    b.filesOfAll u selected ds = b.filesOfAll t selected ds := by
  induction ds with
  | nil => rfl
  | cons d ds ih =>
    rw [List.forall_mem_cons] at hds
    rw [Plan.filesOfAll, Plan.filesOfAll, filesOf_congr h hb hx hds.1, ih hds.2]

theorem buildDirectories_covers (h : t.WellFormed) (hb : Plan.Separate b.roots)
    {es : List (Path × List Path)} (he : b.filesOfAll t selected ds = .ok es)
    (hds : ∀ d ∈ ds, InSolutions b d)
    (ha : (buildDirectories b forced selected time t ds).abort = none) :
    List.Forall₂ (Covers b) es (buildDirectories b forced selected time t ds).result := by
  -- the files of the later exercises are those from before, as builds do not change solutions
  induction ds generalizing t es with
  | nil =>
    rw [← Except.ok.inj he]
    exact .nil
  | cons d ds ih =>
    rw [Plan.filesOfAll] at he
    cases hf : b.filesOf t d selected with
    | error e => simp [hf, bind, Except.bind] at he
    | ok files =>
      cases hr : b.filesOfAll t selected ds with
      | error e => simp [hf, hr, bind, Except.bind] at he
      | ok rest =>
        simp only [hf, hr, bind, Except.bind, pure, Except.pure, Except.ok.injEq] at he
        rw [← he]
        have hd := List.forall_mem_cons.mp hds
        have hx := buildDirectory_confined h b forced selected time hd.1
        have hc : (buildDirectory b t forced selected time d).abort = none → _ :=
          buildDirectory_covers hf
        obtain ⟨u, r, hrun, ha, heq⟩ := buildDirectories_cons ha
        rw [hrun] at hx hc
        rw [heq]
        have hrest : b.filesOfAll u selected ds = .ok rest :=
          (filesOfAll_congr h hb hx hd.2).trans hr
        exact .cons (hc rfl) (ih hx.wellFormed hrest hd.2 ha)

theorem buildAll_covers (h : t.WellFormed) (hb : Plan.Separate b.roots)
    {es : List (Path × List Path)} (he : b.selection t selected = .ok es)
    (ha : (buildAll b t forced selected time).abort = none) :
    List.Forall₂ (Covers b) es (buildAll b t forced selected time).result.directories := by
  rw [Plan.selection] at he
  cases hds : b.exercises t selected with
  | error e => simp [hds, bind, Except.bind] at he
  | ok ds =>
    simp only [hds, bind, Except.bind] at he
    simp only [buildAll, hds] at ha ⊢
    exact buildDirectories_covers h hb he (fun d hd => inSolutions_of_mem_exercises h hds hd) ha

theorem selection_of_exercises (hp : pattern ≠ []) (h : b.exercises t (some pattern) = .ok ds) :
    ∃ all, b.selection t none = .ok all := by
  rw [exercises_some hp] at h
  rw [Plan.selection]
  cases he : b.exercises t none with
  | error e => simp [he, Except.bind] at h
  | ok es =>
    have h : b.withFiles t pattern es = .ok ds := by rwa [he] at h
    rw [withFiles_eq hp] at h
    cases hall : b.filesOfAll t none es with
    | error e => simp [hall, Except.map] at h
    | ok all => exact ⟨all, hall⟩

/-- A build with a pattern is about those files that a build without it is about which the pattern
describes by their path below their exercise, not below the solutions root, or by their name. -/
theorem buildAll_pattern (h : t.WellFormed) (hb : Plan.Separate b.roots) (hp : pattern ≠ [])
    (ha : (buildAll b t forced (some pattern) time).abort = none) :
    ∃ all, b.selection t none = .ok all ∧
      List.Forall₂ (Covers b) (narrow pattern all)
        (buildAll b t forced (some pattern) time).result.directories ∧
      ∀ forced' time', (buildAll b t forced' none time').abort = none →
        List.Forall₂ (Covers b) all (buildAll b t forced' none time').result.directories := by
  have hds : ∃ ds, b.exercises t (some pattern) = .ok ds := by
    rw [buildAll] at ha
    cases he : b.exercises t (some pattern) with
    | error e => simp [he] at ha
    | ok ds => exact ⟨ds, rfl⟩
  obtain ⟨ds, he⟩ := hds
  obtain ⟨all, hall⟩ := selection_of_exercises hp he
  have hsome : b.selection t (some pattern) = .ok (narrow pattern all) := by
    rw [selection_some hp, hall]
    rfl
  exact ⟨all, hall, buildAll_covers h hb hsome ha, fun _ _ => buildAll_covers h hb hall⟩

def lessonPlan : Plan where
  roots := Roots.ofNames (Path.ofText "/w") "s" "p" "res://"

def lessonTree : FileTree where
  entries := [
    (["w"], .directory),
    (["w", "s"], .directory),
    (["w", "s", "lesson_3"], .directory),
    (["w", "s", "lesson_3", "m"], .directory),
    (["w", "s", "lesson_3", "m", "a.gd"], .file [] 5)]

def lessonFile : Path := lessonPlan.source ["lesson_3", "m", "a.gd"]

def lessonScan (pattern : Text) : List Path :=
  scan lessonTree lessonPlan.excludes.patterns lessonPlan.roots.solutions (some pattern) true

def lessonBuild (pattern : Option Text) : Run BuildReport :=
  buildAll lessonPlan lessonTree false pattern 6

def lessonBuilt (pattern : Option Text) : List Path :=
  ((lessonBuild pattern).result.directories.flatMap DirectoryResult.files).map FileResult.source

theorem buildAll_pattern_lesson : lessonTree.WellFormed ∧ Plan.Separate lessonPlan.roots ∧
    (lessonBuild (some "m/*")).abort = none ∧
    List.Forall₂ (Covers lessonPlan) [(lessonPlan.source ["lesson_3"], [lessonFile])]
      (lessonBuild (some "m/*")).result.directories := by
  have hwf : lessonTree.WellFormed := by decide +kernel
  have hb : Plan.Separate lessonPlan.roots :=
    separate_ofNames (by decide) (by decide) (by decide) (by decide) (by decide) (by decide)
      (by decide)
  have ha : (lessonBuild (some "m/*")).abort = none := by decide +kernel
  have hselection : lessonPlan.selection lessonTree none =
      .ok [(lessonPlan.source ["lesson_3"], [lessonFile])] := by decide +kernel
  have hnarrow : narrow "m/*" [(lessonPlan.source ["lesson_3"], [lessonFile])] =
      [(lessonPlan.source ["lesson_3"], [lessonFile])] := by decide +kernel
  obtain ⟨all, hall, hfiltered, -⟩ := buildAll_pattern hwf hb (by decide) ha
  obtain rfl := Except.ok.inj (hselection.symm.trans hall)
  rw [hnarrow] at hfiltered
  exact ⟨hwf, hb, ha, hfiltered⟩

theorem pattern_by_exercise : lessonBuilt none = [lessonFile] ∧
    (lessonScan "lesson_3*" = [lessonFile] ∧ (lessonBuild (some "lesson_3*")).abort = none ∧
      lessonBuilt (some "lesson_3*") = []) ∧
    (lessonScan "m/*" = [] ∧ (lessonBuild (some "m/*")).abort = none ∧
      lessonBuilt (some "m/*") = [lessonFile]) := by
  refine ⟨?_, ⟨?_, ?_, ?_⟩, ?_, ?_, ?_⟩ <;> decide +kernel

end Build

end Coursework
