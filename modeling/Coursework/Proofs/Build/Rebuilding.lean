import Coursework.Proofs.Build.Failure
import Coursework.Proofs.Build.Independence
import Coursework.Proofs.Build.Incremental

namespace Coursework

def FileResult.skipped (r : FileResult) : FileResult := ⟨r.source, r.target, [.skip], []⟩

def DirectoryResult.skipped (r : DirectoryResult) : DirectoryResult :=
  ⟨r.directory, r.files.map FileResult.skipped⟩

def BuildReport.skipped (r : BuildReport) : BuildReport :=
  ⟨r.directories.map DirectoryResult.skipped⟩

namespace Build

variable {b : Plan} {t u v : FileTree} {script : Option SceneScript} {d : Path} {forced : Bool}
  {pattern : Option Text} {time : Int} {rel : List Text} {ps ds : List Path} {r : FileResult}
  {R : List Text → Prop}

/-! ### The solutions after a build -/

theorem not_passed_source (hb : Plan.Separate b.roots) (R : List Text → Prop) (rel : List Text) :
    ¬Passed b t R (t.landing (b.source rel)) := by
  rintro ⟨-, rel', -, hl⟩
  exact hb.apart t (hl.trans (FileTree.isPrefix_landing_parent t _))

theorem not_filled_source (hb : Plan.Separate b.roots) (R : List Text → Prop) (rel : List Text) :
    ¬Filled b t R (t.landing (b.source rel)) := by
  rintro ⟨rel', -, hl⟩
  have hp : t.landing (b.source rel) <+: t.landing (b.target rel') := hl ▸ List.prefix_refl _
  exact hb.apart t hp

theorem get?_source (hb : Plan.Separate b.roots)
    (hx : t.Alters u (Passed b t R) (Filled b t R)) (rel : List Text) :
    u.get? (t.landing (b.source rel)) = t.get? (t.landing (b.source rel)) :=
  hx.get?_of_not (not_passed_source hb R rel) (not_filled_source hb R rel)

theorem subdirectories_congr (h : t.WellFormed) (hb : Plan.Separate b.roots)
    (hx : t.Alters u (Passed b t R) (Filled b t R)) :
    subdirectories u b.roots.solutions = subdirectories t b.roots.solutions := by
  have hanchor : ∀ p ∈ subdirectories u b.roots.solutions, p.anchor = b.roots.solutions.anchor := by
    intro p hp
    obtain ⟨name, rfl, -⟩ := (mem_subdirectories hx.wellFormed hb.solutions).mp hp
    rfl
  have hsorted : ∀ t : FileTree, (subdirectories t b.roots.solutions).Pairwise
      fun p q => Path.le p q = true := by
    intro t
    rw [subdirectories]
    split
    · exact .nil
    · exact Path.pairwise_mergeSort _
  refine Path.eq_of_pairwise hanchor (hsorted u) (hsorted t) ?_
  rw [List.perm_ext_iff_of_nodup (nodup_subdirectories hx.wellFormed _) (nodup_subdirectories h _)]
  intro p
  rw [mem_subdirectories hx.wellFormed hb.solutions, mem_subdirectories h hb.solutions]
  have hg : ∀ name, u.get? (u.landing b.roots.solutions ++ [name]) =
      t.get? (t.landing b.roots.solutions ++ [name]) := by
    intro name
    rw [FileTree.landing_congr hx.place]
    have hs := get?_source hb hx [name]
    rwa [Plan.source, FileTree.landing_under] at hs
  simp only [hg]

theorem withFiles_congr (h : t.WellFormed) (hb : Plan.Separate b.roots)
    (hx : t.Confined u (InPractices b t)) {x : Text} (hds : ∀ d ∈ ds, InSolutions b d) :
    b.withFiles u x ds = b.withFiles t x ds := by
  induction ds with
  | nil => rfl
  | cons d ds ih =>
    rw [List.forall_mem_cons] at hds
    rw [Plan.withFiles, Plan.withFiles, filesOf_congr h hb hx hds.1, ih hds.2]

theorem exercises_congr (h : t.WellFormed) (hb : Plan.Separate b.roots)
    (hx : t.Alters u (Passed b t R) (Filled b t R)) :
    b.exercises u pattern = b.exercises t pattern := by
  have hroot : b.source [] = b.roots.solutions := Path.under_nil _
  have hdir : u.hasDirectory b.roots.solutions = t.hasDirectory b.roots.solutions := by
    rw [Bool.eq_iff_iff, FileTree.hasDirectory_iff hx.wellFormed hb.solutions,
      FileTree.hasDirectory_iff h hb.solutions, FileTree.landing_congr hx.place, ← hroot,
      get?_source hb hx]
  have hscan : scanWith u b.excludes b.roots.solutions none false =
      scanWith t b.excludes b.roots.solutions none false := by
    have hf : b.filesOf u b.roots.solutions none = b.filesOf t b.roots.solutions none :=
      filesOf_congr h hb (confined_of_filled h hb hx) ⟨[], List.not_mem_nil, hroot.symm⟩
    rwa [Plan.filesOf, Plan.filesOf, bne_self_eq_false] at hf
  rw [Plan.exercises, Plan.exercises, hdir, hscan, subdirectories_congr h hb hx]
  split
  · cases scanWith t b.excludes b.roots.solutions none false with
    | error e => rfl
    | ok files =>
      have hall : ∀ d ∈ (if files.isEmpty then [] else [b.roots.solutions]) ++
          subdirectories t b.roots.solutions, InSolutions b d := by
        intro d hd
        rcases List.mem_append.mp hd with hd | hd
        · split at hd
          · cases hd
          · rw [List.mem_singleton.mp hd]
            exact ⟨[], List.not_mem_nil, hroot.symm⟩
        · exact inSolutions_of_mem_subdirectories h hd
      cases pattern with
      | none => rfl
      | some cs =>
        cases cs with
        | nil => rfl
        | cons c cs => exact withFiles_congr h hb (confined_of_filled h hb hx) hall
  · rfl

/-! ### One file -/

def Rests (t : FileTree) (script : Option SceneScript) (source target : Path) : Prop :=
  upToDate (t.timeOf source) (t.timeOf target) ((script.map SceneScript.time).getD 0)
    (t.hasPath target) false = true

theorem Rests.later (h : t.WellFormed) (hb : Plan.Separate b.roots) (hn : ['.', '.'] ∉ rel)
    (hx : t.Alters u (Passed b t R) (Filled b t R)) (hR : ¬R rel)
    (hr : Rests t script (b.source rel) (b.target rel)) :
    Rests u script (b.source rel) (b.target rel) := by
  have hsource : u.entry (b.source rel) = t.entry (b.source rel) := by
    rw [h.entry_eq (hb.source hn), hx.wellFormed.entry_eq (hb.source hn),
      FileTree.landing_congr hx.place, get?_source hb hx]
  have htarget : u.entry (b.target rel) = t.entry (b.target rel) := by
    have hpresent := (upToDate_iff.mp hr).2.1
    rw [FileTree.hasPath, h.entry_eq (hb.target hn)] at hpresent
    rw [h.entry_eq (hb.target hn), hx.wellFormed.entry_eq (hb.target hn),
      FileTree.landing_congr hx.place]
    rcases hx.get? (t.landing (b.target rel)) with hg | ⟨-, hg, -⟩ | ⟨⟨rel', hr', hl⟩, -⟩
    · exact hg
    · rw [hg] at hpresent
      cases hpresent
    · rw [landing_target_inj] at hl
      exact absurd (hl ▸ hr') hR
  rw [Rests, FileTree.timeOf, FileTree.timeOf, FileTree.hasPath, hsource, htarget]
  exact hr

structure Timely (b : Plan) (t : FileTree) (scriptTime time : Int) : Prop where
  solutions : ∀ rel c τ, t.get? (t.landing (b.source rel)) = some (.file c τ) → τ < time
  script : scriptTime < time

theorem buildFile_rests (h : t.WellFormed) (hb : Plan.Separate b.roots) (hs : Solution b t d rel)
    (hr : buildFile b t script forced (b.source rel) time = ⟨u, .ok r⟩) (hf : r.failed = false)
    (ht : r.steps ≠ [.skip] → Timely b t ((script.map SceneScript.time).getD 0) time) :
    r.source = b.source rel ∧ r.target = b.target rel ∧
      Rests u script (b.source rel) (b.target rel) := by
  rw [buildFile, practiceOf_source] at hr
  simp only at hr
  split at hr
  · next hup =>
    obtain ⟨rfl, hres⟩ := Done.mk.inj hr
    obtain rfl := Except.ok.inj hres
    obtain ⟨-, hrest⟩ := upToDate_iff.mp hup
    exact ⟨rfl, rfl, upToDate_iff.mpr ⟨rfl, hrest⟩⟩
  · have htarget := hb.target hs.descends
    have hnames : r.source = b.source rel ∧ r.target = b.target rel ∧ r.steps ≠ [.skip] := by
      cases regenerates hr with
      | blocked hd he => exact ⟨rfl, rfl, by simp⟩
      | unproduced hd hp => exact ⟨rfl, rfl, by simp⟩
      | unconverted hd hp hc => exact ⟨rfl, rfl, by simp⟩
      | done hd hp hc =>
        refine ⟨rfl, rfl, ?_⟩
        obtain ⟨-, -, -, -, -, ⟨rfl, -⟩ | ⟨rfl, -⟩⟩ := produce_ok hp <;> simp
    obtain ⟨x, content, c, hx, -, -, hw⟩ := regenerate_ok h htarget hr hf
    obtain ⟨content', σ, hfile⟩ := hs.file
    have htimely := ht hnames.2.2
    have hentry : t.entry (b.source rel) = some (.file content' σ) := by
      rw [h.entry_eq (hb.source hs.descends), hfile]
    refine ⟨hnames.1, hnames.2.1, ?_⟩
    apply upToDate_of_written htarget (htimely.solutions rel content' σ hfile) htimely.script
      hentry hx _ hw
    exact hb.not_same hx.wellFormed hs.descends hs.descends

/-! ### The files of an exercise -/

def Resting (b : Plan) (t : FileTree) (script : Option SceneScript) (r : FileResult) : Prop :=
  ∃ rel, r.source = b.source rel ∧ r.target = b.target rel ∧
    Rests t script (b.source rel) (b.target rel)

theorem Timely.later {σ : Int} (hb : Plan.Separate b.roots)
    (hx : t.Alters u (Passed b t R) (Filled b t R)) (h : Timely b t σ time) :
    Timely b u σ time := by
  refine ⟨fun rel c τ hg => h.solutions rel c τ ?_, h.script⟩
  rwa [FileTree.landing_congr hx.place, get?_source hb hx] at hg

theorem Solution.later (hb : Plan.Separate b.roots)
    (hx : t.Alters u (Passed b t R) (Filled b t R)) (h : Solution b t d rel) :
    Solution b u d rel := by
  refine ⟨h.home, h.ne_nil, h.descends, ?_⟩
  rw [FileTree.landing_congr hx.place, get?_source hb hx]
  exact h.file

theorem buildFiles_alters (h : t.WellFormed) (hb : Plan.Separate b.roots)
    (hps : ∀ p ∈ ps, ∃ rel, p = b.source rel ∧ Solution b t d rel) (script : Option SceneScript)
    (forced : Bool) (time : Int) : t.Alters (buildFiles b script forced time t ps).tree
      (Passed b t fun rel => b.source rel ∈ ps) (Filled b t fun rel => b.source rel ∈ ps) := by
  refine buildFiles_preserves (P := fun u => t.Alters u (Passed b t fun rel => b.source rel ∈ ps)
    (Filled b t fun rel => b.source rel ∈ ps)) (fun u hu p hp => ?_) (.refl h _ _)
  obtain ⟨rel, rfl, hs⟩ := hps p hp
  apply hu.trans
  rw [← passed_congr hu.place, ← filled_congr hu.place]
  exact buildFile_alters hu.wellFormed hb hp hs.descends hs.ne_nil script forced time

theorem Rests.of_buildFiles (h : t.WellFormed) (hb : Plan.Separate b.roots)
    (hps : ∀ p ∈ ps, ∃ rel, p = b.source rel ∧ Solution b t d rel) (hn : ['.', '.'] ∉ rel)
    (hup : Rests t script (b.source rel) (b.target rel))
    (ha : (buildFiles b script forced time t ps).abort = none)
    (hf : ∀ r ∈ (buildFiles b script forced time t ps).result, r.failed = false)
    (hrest : ∀ r ∈ (buildFiles b script forced time t ps).result,
      Resting b (buildFiles b script forced time t ps).tree script r) :
    Rests (buildFiles b script forced time t ps).tree script (b.source rel) (b.target rel) := by
  by_cases hin : b.source rel ∈ ps
  · rw [← (buildFiles_sources ha).2 hf] at hin
    obtain ⟨r, hmem, heq⟩ := List.mem_map.mp hin
    obtain ⟨rel', hsource, -, hup'⟩ := hrest r hmem
    obtain rfl := source_inj.mp (heq.symm.trans hsource)
    exact hup'
  · exact hup.later h hb hn (buildFiles_alters h hb hps script forced time) hin

theorem buildFiles_rest (h : t.WellFormed) (hb : Plan.Separate b.roots)
    (hps : ∀ p ∈ ps, ∃ rel, p = b.source rel ∧ Solution b t d rel)
    (ha : (buildFiles b script forced time t ps).abort = none)
    (hf : ∀ r ∈ (buildFiles b script forced time t ps).result, r.failed = false)
    (ht : ∀ r ∈ (buildFiles b script forced time t ps).result, r.steps ≠ [.skip] →
      Timely b t ((script.map SceneScript.time).getD 0) time) :
    ∀ r ∈ (buildFiles b script forced time t ps).result,
      Resting b (buildFiles b script forced time t ps).tree script r := by
  -- a file that is up to date rests while the others are built: each writes its own practice
  induction ps generalizing t with
  | nil => exact fun r hr => absurd hr List.not_mem_nil
  | cons p ps ih =>
    obtain ⟨rel, rfl, hs⟩ := hps p List.mem_cons_self
    obtain ⟨u, r, hr, hok, ha, hf, hrun⟩ := buildFiles_cons_of_ok ha hf
    rw [hrun] at ht ⊢
    have hstep := buildFile_alters (R := (· = rel)) h hb rfl hs.descends hs.ne_nil script
      forced time
    rw [hr] at hstep
    have hsolutions : ∀ p ∈ ps, ∃ rel, p = b.source rel ∧ Solution b u d rel := by
      intro p hp
      obtain ⟨rel', hrel, hs'⟩ := hps p (List.mem_cons_of_mem _ hp)
      exact ⟨rel', hrel, hs'.later hb hstep⟩
    have hrest := ih hstep.wellFormed hsolutions ha hf
      (fun r hr hne => (ht r (List.mem_cons_of_mem _ hr) hne).later hb hstep)
    intro r' hm
    rcases List.mem_cons.mp hm with rfl | hm
    · obtain ⟨hsource, htarget, hup⟩ := buildFile_rests h hb hs hr hok
        (ht r' List.mem_cons_self)
      exact ⟨rel, hsource, htarget,
        hup.of_buildFiles hstep.wellFormed hb hsolutions hs.descends ha hf hrest⟩
    · exact hrest r' hm

theorem buildFiles_again {rs : List FileResult} (h : ∀ r ∈ rs, Resting b t script r) (time : Int) :
    buildFiles b script false time t (rs.map FileResult.source) =
      ⟨t, rs.map FileResult.skipped, none⟩ := by
  induction rs with
  | nil => rfl
  | cons r rs ih =>
    obtain ⟨rel, hsource, htarget, hup⟩ := h r List.mem_cons_self
    have hskip : buildFile b t script false r.source time = ⟨t, .ok r.skipped⟩ := by
      rw [FileResult.skipped, hsource, htarget, buildFile, practiceOf_source]
      exact if_pos hup
    have hfail : r.skipped.failed = false := rfl
    rw [List.map_cons, buildFiles, hskip]
    simp only [hfail, Bool.false_eq_true, if_false,
      ih fun r hr => h r (List.mem_cons_of_mem _ hr), List.map_cons]

/-! ### Exercises -/

structure Rested (b : Plan) (t u : FileTree) (pattern : Option Text) (d : Path)
    (r : DirectoryResult) : Prop where
  directory : r.directory = d
  files : ∃ name script, b.scriptName = some name ∧ loadScript t d name = .ok script ∧
    b.filesOf t d pattern = .ok (r.files.map FileResult.source) ∧
    ∀ f ∈ r.files, Resting b u script f

theorem buildDirectory_rested (h : t.WellFormed) (hb : Plan.Separate b.roots)
    (hd : IsExercise b t d) (hx : t.Alters u (Passed b t R) (Filled b t R))
    (haloof : Aloof b t (b.scriptIn d)) {r : DirectoryResult}
    (hr : buildDirectory b u forced pattern time d = ⟨v, r, none⟩) (hok : r.ok = true)
    (ht : ∀ f ∈ r.files, f.steps ≠ [.skip] →
      Timely b t (t.timeOf (b.scriptIn r.directory)) time) : Rested b t v pattern d r := by
  have ha : (buildDirectory b u forced pattern time d).abort = none := by rw [hr]
  have hok : (buildDirectory b u forced pattern time d).result.ok = true := by rwa [hr]
  obtain ⟨name, script, files, hn, hs, hf, hend, hnot, hrun⟩ := buildDirectory_of_ok ha hok
  obtain ⟨rfl, rfl, -⟩ := Run.mk.inj (hrun.symm.trans hr)
  rw [loadScript_of_aloof h hb hx hn haloof] at hs
  rw [filesOf_congr h hb (confined_of_filled h hb hx) (hd.inSolutions h)] at hf
  have htime : (script.map SceneScript.time).getD 0 = t.timeOf (b.scriptIn d) :=
    time_of_loadScript (by rw [hn]; exact hs)
  have hsolutions : ∀ p ∈ files, ∃ rel, p = b.source rel ∧ Solution b u d rel := by
    intro p hp
    obtain ⟨rel, hrel, hsol⟩ := solution_of_mem h hb hd hf hp
    exact ⟨rel, hrel, hsol.later hb hx⟩
  have hrest := buildFiles_rest hx.wellFormed hb hsolutions hend hnot fun f hm hne => by
    rw [htime]
    exact (ht f hm hne).later hb hx
  refine ⟨rfl, name, script, hn, hs, ?_, hrest⟩
  rw [hf, (buildFiles_sources hend).2 hnot]

theorem Rested.later (h : t.WellFormed) (hb : Plan.Separate b.roots) (hd : IsExercise b t d)
    {r : DirectoryResult} (hr : Rested b t u pattern d r) (hplace : u.place = t.place)
    (hwf : u.WellFormed) (hds : ∀ e ∈ ds, IsExercise b t e ∧ d ≠ e)
    (hx : u.Alters v (Passed b t (BelongsAny b t pattern ds))
      (Filled b t (BelongsAny b t pattern ds))) : Rested b t v pattern d r := by
  obtain ⟨hdir, name, script, hn, hs, hf, hrest⟩ := hr
  refine ⟨hdir, name, script, hn, hs, hf, fun f hm => ?_⟩
  obtain ⟨rel, hsource, htarget, hup⟩ := hrest f hm
  obtain ⟨rel', hrel, hsol⟩ := solution_of_mem h hb hd hf (List.mem_map_of_mem hm)
  obtain rfl := source_inj.mp (hsource.symm.trans hrel)
  refine ⟨rel, hsource, htarget, ?_⟩
  rw [← passed_congr hplace, ← filled_congr hplace] at hx
  apply hup.later hwf hb hsol.descends hx
  rintro ⟨e, he, hbelongs⟩
  obtain ⟨hex, hne⟩ := hds e he
  exact hne (hsol.home.symm.trans (hbelongs.solution h hb hex).home)

theorem buildDirectories_rested (h : t.WellFormed) (hb : Plan.Separate b.roots) {done : List Path}
    (hds : ∀ d ∈ ds, IsExercise b t d) (hnodup : ds.Nodup)
    (hx : t.Alters u (Passed b t (BelongsAny b t pattern done))
      (Filled b t (BelongsAny b t pattern done)))
    (haloof : ∀ d ∈ ds, Aloof b t (b.scriptIn d))
    (ha : (buildDirectories b forced pattern time u ds).abort = none)
    (hok : ∀ r ∈ (buildDirectories b forced pattern time u ds).result, r.ok = true)
    (ht : ∀ r ∈ (buildDirectories b forced pattern time u ds).result, ∀ f ∈ r.files,
      f.steps ≠ [.skip] → Timely b t (t.timeOf (b.scriptIn r.directory)) time) :
    List.Forall₂ (Rested b t (buildDirectories b forced pattern time u ds).tree pattern) ds
      (buildDirectories b forced pattern time u ds).result := by
  -- the later exercises write no practice of those before them
  induction ds generalizing u done with
  | nil => exact .nil
  | cons d ds ih =>
    have hd : IsExercise b t d := hds d List.mem_cons_self
    obtain ⟨hnot, hnodup⟩ := List.nodup_cons.mp hnodup
    have hstep := buildDirectory_alters_later h hb (confined_of_filled h hb hx) hd forced pattern
      time
    obtain ⟨v, r, hr, ha, heq⟩ := buildDirectories_cons ha
    rw [heq] at hok ht ⊢
    rw [hr] at hstep
    rw [List.forall_mem_cons] at hok ht
    have hy := alters_concat hx hstep
    have hrest := buildDirectory_rested h hb hd hx (haloof d List.mem_cons_self) hr hok.1 ht.1
    have hexercises : ∀ e ∈ ds, IsExercise b t e := fun e he => hds e (List.mem_cons_of_mem _ he)
    have hlater := buildDirectories_alters h hb (confined_of_filled h hb hy) hexercises forced
      pattern time
    refine .cons (hrest.later h hb hd hy.place hy.wellFormed (fun e he => ?_) hlater)
      (ih hexercises hnodup hy (fun e he => haloof e (List.mem_cons_of_mem _ he)) ha hok.2 ht.2)
    refine ⟨hexercises e he, ?_⟩
    rintro rfl
    exact hnot he

/-! ### The build after -/

theorem buildDirectory_again (h : t.WellFormed) (hb : Plan.Separate b.roots)
    (hd : IsExercise b t d) (hx : t.Alters u (Passed b t R) (Filled b t R))
    (haloof : Aloof b t (b.scriptIn d)) {r : DirectoryResult} (hr : Rested b t u pattern d r)
    (time : Int) : buildDirectory b u false pattern time d = ⟨u, r.skipped, none⟩ := by
  obtain ⟨rfl, name, script, hn, hs, hf, hrest⟩ := hr
  have hfiles : b.filesOf u r.directory pattern = b.filesOf t r.directory pattern :=
    filesOf_congr h hb (confined_of_filled h hb hx) (hd.inSolutions h)
  rw [buildDirectory, hn]
  simp only [buildWithScript, loadScript_of_aloof h hb hx hn haloof, hs, hfiles, hf,
    buildFiles_again hrest, DirectoryResult.skipped]

theorem buildDirectories_again (h : t.WellFormed) (hb : Plan.Separate b.roots)
    (hds : ∀ d ∈ ds, IsExercise b t d) (hx : t.Alters u (Passed b t R) (Filled b t R))
    (haloof : ∀ d ∈ ds, Aloof b t (b.scriptIn d)) {rs : List DirectoryResult}
    (hr : List.Forall₂ (Rested b t u pattern) ds rs) (time : Int) :
    buildDirectories b false pattern time u ds = ⟨u, rs.map DirectoryResult.skipped, none⟩ := by
  induction hr with
  | nil => rfl
  | cons hr _ ih =>
    rw [List.forall_mem_cons] at hds haloof
    rw [buildDirectories, buildDirectory_again h hb hds.1 hx haloof.1 hr time]
    simp only [ih hds.2 haloof.2, List.map_cons]

/-- A build that follows one without a failure, and finds the solutions as that one did, skips every
file and changes nothing, if what that one wrote is newer than the solutions and the scripts. All
that it wrote has one time, its directories have none, and its scripts wrote nothing. -/
theorem buildAll_again {report : BuildReport} (h : t.WellFormed) (hb : Plan.Separate b.roots)
    (haloof : ∀ ds, b.exercises t pattern = .ok ds → ∀ d ∈ ds, Aloof b t (b.scriptIn d))
    (hr : buildAll b t forced pattern time = ⟨u, report, none⟩) (hok : report.ok = true)
    (ht : ∀ r ∈ report.directories, ∀ f ∈ r.files, f.steps ≠ [.skip] →
      Timely b t (t.timeOf (b.scriptIn r.directory)) time) (later : Int) :
    buildAll b u false pattern later = ⟨u, report.skipped, none⟩ := by
  rw [buildAll] at hr
  cases he : b.exercises t pattern with
  | error e => simp [he] at hr
  | ok ds =>
    simp only [he, Run.mk.injEq] at hr
    obtain ⟨rfl, rfl, ha⟩ := hr
    have hds : ∀ d ∈ ds, IsExercise b t d := fun d hd => isExercise_of_mem h hb he hd
    have hbefore : t.Alters t (Passed b t (BelongsAny b t pattern []))
        (Filled b t (BelongsAny b t pattern [])) := .refl h _ _
    have hx := buildDirectories_alters h hb (confined_of_filled h hb hbefore) hds forced pattern
      time
    have hrest := buildDirectories_rested h hb hds (nodup_exercises h he) hbefore (haloof ds he) ha
      (List.all_eq_true.mp hok) ht
    rw [buildAll, exercises_congr h hb hx, he]
    simp only [buildDirectories_again h hb hds hx (haloof ds he) hrest later, BuildReport.skipped]

theorem timely_of_entries {σ : Int}
    (hf : ∀ f ∈ t.entries, f.2.isFile = true → t.landing b.roots.solutions <+: f.1 →
      f.2.time < time) (hσ : σ < time) : Timely b t σ time := by
  refine ⟨fun rel c τ hg => ?_, hσ⟩
  rw [Plan.source, FileTree.landing_under] at hg
  have hne : t.landing b.roots.solutions ++ rel ≠ [] := by
    intro hnil
    rw [hnil] at hg
    cases hg
  exact hf _ (FileTree.mem_keys_of_get? hne hg) rfl (List.prefix_append _ _)

def mixedTree : FileTree := sampleTree [
  (["w", "s", "diff.py"], sampleScript),
  (["w", "s", "l"], .directory),
  (["w", "s", "l", "b.gd"], .file [] 5),
  (["w", "p"], .directory),
  (["w", "p", "l"], .directory),
  (["w", "p", "l", "b.gd"], .file [] 6)]

def mixedBuild : Run BuildReport := buildAll (sample "diff.py") mixedTree false none 7

theorem buildAll_again_mixed : mixedTree.WellFormed ∧ Plan.Separate (sample "diff.py").roots ∧
    mixedBuild.result.directories.map (fun r => r.files.map FileResult.steps) =
      [[[.diff, .process]], [[.skip]]] ∧
    buildAll (sample "diff.py") mixedBuild.tree false none 8 =
      ⟨mixedBuild.tree, mixedBuild.result.skipped, none⟩ := by
  have hwf : mixedTree.WellFormed := by decide +kernel
  have hb : (sample "diff.py").Layout := ⟨sample_separate _, by decide, by decide⟩
  have hsteps : mixedBuild.result.directories.map (fun r => r.files.map FileResult.steps) =
      [[[.diff, .process]], [[.skip]]] := by decide +kernel
  have habort : mixedBuild.abort = none := by decide +kernel
  have hrun : mixedBuild = ⟨mixedBuild.tree, mixedBuild.result, none⟩ :=
    congrArg (Run.mk mixedBuild.tree mixedBuild.result) habort
  have htime : ∀ r ∈ mixedBuild.result.directories,
      mixedTree.timeOf ((sample "diff.py").scriptIn r.directory) < 7 := by decide +kernel
  refine ⟨hwf, hb.toSeparate, hsteps, buildAll_again hwf hb.toSeparate (fun ds he d hd => ?_) hrun
    (by decide +kernel) (fun r hr f hf hne => ?_) 8⟩
  · exact hb.aloof hwf ((isExercise_of_mem hwf hb.toSeparate he hd).inSolutions hwf)
  · exact timely_of_entries (by decide +kernel) (htime r hr)

structure Restless (b : Plan) (t : FileTree) (now : Int) : Prop where
  separate : Plan.Separate b.roots
  wellFormed : t.WellFormed
  solutions : ∀ f ∈ t.entries, f.2.isFile = true → t.landing b.roots.solutions <+: f.1 →
    f.2.time < now
  first : (buildAll b t false none now).abort = none ∧ (buildAll b t false none now).result.ok = true
  second : (buildAll b (buildAll b t false none now).tree false none (now + 1)).result ≠
    (buildAll b t false none now).result.skipped

def plainTree (time : Int) (more : List (Location × Entry)) : FileTree where
  entries :=
    (["w"], .directory) :: (["w", "s"], .directory) ::
      (["w", "s", "a.gd"], .file [] time) :: more

theorem rebuilt_without_edit :
    Restless (sample "../c.py") (plainTree 5 [(["w", "c.py"], .file [] 9)]) 6 ∧
    Restless (sample "/w/p/l/c.py") withinTree 6 ∧
    Restless (sample "/w/p/../c.txt") (plainTree 5 [(["w", "c.txt"], .file [] 5)]) 6 ∧
    Restless (sample "diff.py") (plainTree (-5) []) (-4) := by
  refine ⟨?_, ?_, ?_, ?_⟩
  · refine ⟨sample_separate _, ?_, ?_, ?_, ?_⟩ <;> decide +kernel
  · refine ⟨sample_separate _, ?_, ?_, ?_, ?_⟩ <;> decide +kernel
  · refine ⟨sample_separate _, ?_, ?_, ?_, ?_⟩ <;> decide +kernel
  · refine ⟨sample_separate _, ?_, ?_, ?_, ?_⟩ <;> decide +kernel

end Build

end Coursework
