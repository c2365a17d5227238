import Mathlib.Algebra.GroupWithZero.Nat
import Coursework.Proofs.Build.Changes

namespace Coursework

/-! ### Counts -/

namespace BuildReport

variable {r : BuildReport}

def results (r : BuildReport) : List FileResult := r.directories.flatMap DirectoryResult.files

theorem count_eq (r : BuildReport) (o : Outcome) :
    r.count o = r.results.countP fun f => f.outcome == o := by
  have hfold : ∀ (ds : List DirectoryResult) n, ds.foldl (fun n d => n + d.count o) n =
      n + (ds.flatMap DirectoryResult.files).countP fun f => f.outcome == o := by
    intro ds
    induction ds with
    | nil => exact fun n => rfl
    | cons d ds ih =>
      intro n
      rw [List.foldl_cons, ih, List.flatMap_cons, List.countP_append, DirectoryResult.count]
      omega
  rw [count, hfold, Nat.zero_add, results]

theorem failures_eq (r : BuildReport) : r.failures = r.results.filter FileResult.failed :=
  List.filter_flatMap.symm

theorem ok_iff : r.ok = true ↔ r.failures = [] := by
  rw [failures_eq, ok, List.all_eq_true, List.filter_eq_nil_iff]
  simp only [results, List.mem_flatMap, DirectoryResult.ok, Bool.not_eq_true', List.any_eq_false]
  constructor
  · rintro h f ⟨d, hd, hf⟩
    exact h d hd f hf
  · exact fun h d hd f hf => h f ⟨d, hd, hf⟩

theorem sum_count (r : BuildReport) : (Outcome.all.map r.count).sum = r.results.length := by
  simp only [count_eq, Outcome.all, List.map_cons, List.map_nil, List.sum_cons, List.sum_nil]
  induction r.results with
  | nil => rfl
  | cons f fs ih =>
    simp only [List.countP_cons, List.length_cons]
    cases f.outcome <;> simp <;> omega

end BuildReport

namespace Build

variable {b : Plan} {t u v : FileTree} {script : Option SceneScript} {d p p' q q' : Path}
  {forced : Bool} {pattern : Option Text} {time : Int} {ps ds : List Path} {r : FileResult}

/-! ### The steps of one file -/

def stepLists : List (List Outcome) :=
  [[.skip], [.fail], [.copy], [.diff], [.copy, .process], [.diff, .process], [.copy, .fail],
    [.diff, .fail]]

theorem convert_steps {extension : Text} {target : Path} {steps : List Outcome}
    (hc : convert b t extension target time = .ok (.ok (u, steps))) :
    steps = [] ∨ steps = [.process] := by
  rw [convert] at hc
  split at hc
  · cases hr : t.readText target with
    | error e => simp [hr] at hc
    | ok s =>
      cases hx : b.conversion.practiceText s with
      | none => simp [hr, hx] at hc
      | some x =>
        cases hw : t.writeText target x time with
        | error e => simp [hr, hx, hw] at hc
        | ok v =>
          simp only [hr, hx, hw, Except.ok.injEq, Prod.mk.injEq] at hc
          exact .inr hc.2.symm
  · simp only [Except.ok.injEq, Prod.mk.injEq] at hc
    exact .inl hc.2.symm

theorem produce_step {source target : Path} {step : Outcome}
    (hp : produce b t script source target time = .ok (.ok (u, step))) :
    step = .copy ∨ step = .diff := by
  obtain ⟨-, -, -, -, -, ⟨hstep, -⟩ | ⟨hstep, -⟩⟩ := produce_ok hp
  · exact .inl hstep
  · exact .inr hstep

structure Reported (b : Plan) (p : Path) (r : FileResult) : Prop where
  source : r.source = p
  target : b.roots.practiceOf p = .ok r.target
  steps : r.steps ∈ stepLists

theorem Regenerates.reported {source target : Path} (hp : b.roots.practiceOf source = .ok target)
    (h : Regenerates b t script source target time u r) : Reported b source r := by
  cases h with
  | blocked => exact ⟨rfl, hp, by simp [stepLists]⟩
  | unproduced => exact ⟨rfl, hp, by simp [stepLists]⟩
  | unconverted _ hprod =>
    refine ⟨rfl, hp, ?_⟩
    rcases produce_step hprod with rfl | rfl <;> simp [stepLists]
  | done _ hprod hc =>
    refine ⟨rfl, hp, ?_⟩
    rcases produce_step hprod with rfl | rfl <;> rcases convert_steps hc with rfl | rfl <;>
      simp [stepLists]

theorem buildFile_reported (h : buildFile b t script forced p time = ⟨u, .ok r⟩) :
    Reported b p r := by
  rw [buildFile] at h
  cases hp : b.roots.practiceOf p with
  | error e => simp [hp] at h
  | ok target =>
    simp only [hp] at h
    split at h
    · rw [← Except.ok.inj (Done.mk.inj h).2]
      exact ⟨rfl, hp, by simp [stepLists]⟩
    · exact (regenerates h).reported hp

theorem failed_eq_outcome (h : r.steps ∈ stepLists) : r.failed = (r.outcome == .fail) := by
  have hall : ∀ s ∈ stepLists, s.contains .fail = (s.getLast?.getD .skip == .fail) := by decide
  exact hall r.steps h

/-! ### The files of a directory -/

theorem buildFiles_reported (b : Plan) (script : Option SceneScript) (forced : Bool) (time : Int)
    (t : FileTree) (ps : List Path) :
    ∀ r ∈ (buildFiles b script forced time t ps).result, Reported b r.source r := by
  induction ps generalizing t with
  | nil => exact fun r hr => absurd hr List.not_mem_nil
  | cons p ps ih =>
    rw [buildFiles]
    cases hb : buildFile b t script forced p time with
    | mk u x =>
      cases x with
      | error a => exact fun r hr => absurd hr List.not_mem_nil
      | ok r =>
        have hr := buildFile_reported hb
        rw [← hr.source] at hr
        simp only
        split
        · exact List.forall_mem_singleton.mpr hr
        · exact List.forall_mem_cons.mpr ⟨hr, ih u⟩

theorem buildFiles_front (b : Plan) (script : Option SceneScript) (forced : Bool) (time : Int)
    (t : FileTree) (ps : List Path) :
    ∀ r ∈ (buildFiles b script forced time t ps).result.dropLast, r.failed = false := by
  induction ps generalizing t with
  | nil => exact fun r hr => absurd hr List.not_mem_nil
  | cons p ps ih =>
    rw [buildFiles]
    cases hb : buildFile b t script forced p time with
    | mk u x =>
      cases x with
      | error a => exact fun r hr => absurd hr List.not_mem_nil
      | ok r =>
        simp only
        split
        · exact fun r hr => absurd hr List.not_mem_nil
        · next hf =>
          intro s hs
          cases hrest : (buildFiles b script forced time u ps).result with
          | nil => simp [hrest] at hs
          | cons r' rs =>
            have hfront := ih u
            rw [hrest] at hs hfront
            rw [List.dropLast_cons_cons] at hs
            rcases List.mem_cons.mp hs with rfl | hs
            · exact Bool.eq_false_iff.mpr hf
            · exact hfront s hs

theorem buildFiles_take (ha : (buildFiles b script forced time t ps).abort = none) :
    buildFiles b script forced time t
        (ps.take (buildFiles b script forced time t ps).result.length) =
      buildFiles b script forced time t ps := by
  induction ps generalizing t with
  | nil => rfl
  | cons p ps ih =>
    rw [buildFiles] at ha ⊢
    cases hb : buildFile b t script forced p time with
    | mk u x =>
      cases x with
      | error a => simp [hb] at ha
      | ok r =>
        simp only [hb] at ha ⊢
        by_cases hf : r.failed = true
        · simp [hf, buildFiles, hb]
        · simp only [hf, Bool.false_eq_true, if_false] at ha ⊢
          rw [List.length_cons, List.take_succ_cons, buildFiles, hb]
          simp only [hf, Bool.false_eq_true, if_false, ih ha]

/-! ### Practices behind a failure -/

theorem practiceOf_siblings {as bs : List Text} (hq : b.roots.practiceOf (d.under as) = .ok q)
    (hq' : b.roots.practiceOf (d.under bs) = .ok q') : ∃ (e : Path) (s xs ys : List Text),
      as = s ++ xs ∧ bs = s ++ ys ∧ q = e.under xs ∧ q' = e.under ys := by
  obtain ⟨xs, hx, rfl⟩ := Roots.practiceOf_eq_ok_iff.mp hq
  obtain ⟨ys, hy, rfl⟩ := Roots.practiceOf_eq_ok_iff.mp hq'
  have hxs : d.parts ++ as = b.roots.solutions.parts ++ xs := congrArg Path.parts hx
  have hys : d.parts ++ bs = b.roots.solutions.parts ++ ys := congrArg Path.parts hy
  -- the directory lies above the solutions root or in it
  rcases List.append_eq_append_iff.mp hxs with ⟨s, hs, rfl⟩ | ⟨s, hs, rfl⟩
  · rw [hs, List.append_assoc, List.append_cancel_left_eq] at hys
    exact ⟨b.roots.practices, s, xs, ys, rfl, hys, rfl, rfl⟩
  · rw [hs, List.append_assoc, List.append_cancel_left_eq] at hys
    refine ⟨b.roots.practices.under s, [], as, bs, rfl, rfl, ?_, ?_⟩
    · rw [Path.under_under]
    · rw [Path.under_under, hys]

theorem siblings_apart (h : t.WellFormed) {excludes : List Text} {recursive : Bool}
    (hp : p ∈ scan t excludes d pattern recursive) (hp' : p' ∈ scan t excludes d pattern recursive)
    (hne : p ≠ p') (hq : b.roots.practiceOf p = .ok q) (hq' : b.roots.practiceOf p' = .ok q') :
    ∃ (e : Path) (xs ys : List Text), q = e.under xs ∧ q' = e.under ys ∧ ['.', '.'] ∉ xs ∧
      ['.', '.'] ∉ ys ∧ ¬xs <+: ys := by
  obtain ⟨l, as, c, τ, hl, rfl, -, hsite, hg⟩ := located_of_mem_scan h hp
  obtain ⟨l', bs, c', τ', hl', rfl, -, hsite', hg'⟩ := located_of_mem_scan h hp'
  obtain rfl := Except.ok.inj (hl.symm.trans hl')
  rw [hsite] at hg
  rw [hsite'] at hg'
  obtain ⟨e, s, xs, ys, rfl, rfl, rfl, rfl⟩ := practiceOf_siblings hq hq'
  refine ⟨e, xs, ys, rfl, rfl, fun hm => h.not_mem_of_get? hg (List.mem_append_right _ hm),
    fun hm => h.not_mem_of_get? hg' (List.mem_append_right _ hm), ?_⟩
  rintro ⟨k, rfl⟩
  have hk : k ≠ [] := by
    rintro rfl
    exact hne (by rw [List.append_nil])
  -- no file lies above another one
  rw [← List.append_assoc, ← List.append_assoc, List.append_assoc l] at hg'
  rw [h.above hk hg'] at hg
  cases hg

def Untouched (b : Plan) (t u : FileTree) (p : Path) : Prop :=
  ∀ q, b.roots.practiceOf p = .ok q →
    (∀ c τ, u.get? (t.site q) = some (.file c τ) ↔ t.get? (t.site q) = some (.file c τ)) ∧
    (q.Descends → u.entry q = t.entry q)

section

variable {excludes : List Text} {recursive : Bool}

theorem buildFiles_spares (h : t.WellFormed) (hp : p ∈ scan t excludes d pattern recursive)
    (hps : ∀ p' ∈ ps, p ≠ p' ∧ p' ∈ scan t excludes d pattern recursive)
    (hq : b.roots.practiceOf p = .ok q) (script : Option SceneScript) (forced : Bool) (time : Int)
    (c : Utf8.Bytes) (τ : Int) :
    (buildFiles b script forced time t ps).tree.get? (t.site q) = some (.file c τ) ↔
      t.get? (t.site q) = some (.file c τ) := by
  have hx : t.Confined (buildFiles b script forced time t ps).tree
      fun l => ∃ p' ∈ ps, ∃ q', b.roots.practiceOf p' = .ok q' ∧ l = t.site q' := by
    refine buildFiles_preserves (P := fun u => t.Confined u _) (fun u hu p' hp' => ?_) (.refl h _)
    refine hu.trans ((buildFile_confined hu.wellFormed b script forced p' time).mono ?_)
    rintro l ⟨q', hq', rfl⟩
    exact ⟨p', hp', q', hq', FileTree.site_congr hu.place q'⟩
  apply hx.file_iff
  rintro ⟨p', hm, q', hq', hsite⟩
  obtain ⟨hne, hp'⟩ := hps p' hm
  obtain ⟨e, xs, ys, rfl, rfl, hxs, hys, hno⟩ := siblings_apart h hp hp' hne hq hq'
  rw [FileTree.site_under _ _ hxs, FileTree.site_under _ _ hys] at hsite
  exact hno (List.append_cancel_left hsite ▸ List.prefix_refl _)

theorem buildFiles_entry (h : t.WellFormed) (hp : p ∈ scan t excludes d pattern recursive)
    (hps : ∀ p' ∈ ps, p ≠ p' ∧ p' ∈ scan t excludes d pattern recursive)
    (hq : b.roots.practiceOf p = .ok q) (hd : q.Descends) (script : Option SceneScript)
    (forced : Bool) (time : Int) :
    (buildFiles b script forced time t ps).tree.entry q = t.entry q := by
  have hapart : ∀ p' ∈ ps, ∀ q', b.roots.practiceOf p' = .ok q' →
      q'.Descends ∧ ¬t.landing q <+: t.landing q' := by
    intro p' hp' q' hq'
    obtain ⟨e, xs, ys, rfl, rfl, -, hys, hno⟩ :=
      siblings_apart h hp (hps p' hp').2 (hps p' hp').1 hq hq'
    have he : e.Descends := fun hm => hd (List.mem_append_left _ hm)
    rw [FileTree.landing_under, FileTree.landing_under, List.prefix_append_right_inj]
    exact ⟨he.under hys, hno⟩
  have hx : t.Alters (buildFiles b script forced time t ps).tree
      (fun l => ∃ p' ∈ ps, ∃ q', b.roots.practiceOf p' = .ok q' ∧ l <+: t.landing q'.parent)
      (fun l => ∃ p' ∈ ps, ∃ q', b.roots.practiceOf p' = .ok q' ∧ l = t.landing q') := by
    refine buildFiles_preserves (P := fun u => t.Alters u _ _) (fun u hu p' hp' => ?_)
      (.refl h _ _)
    have hstep := buildFile_alters_practice hu.wellFormed (fun q' hq' => (hapart p' hp' q' hq').1)
      script forced time
    refine hu.trans (hstep.mono ?_ ?_)
    · rintro l ⟨q', hq', -, hl⟩
      exact ⟨p', hp', q', hq', FileTree.landing_congr hu.place _ ▸ hl⟩
    · rintro l ⟨q', hq', hl⟩
      exact ⟨p', hp', q', hq', FileTree.landing_congr hu.place _ ▸ hl⟩
  rw [hx.wellFormed.entry_eq hd, h.entry_eq hd, FileTree.landing_congr hx.place]
  apply hx.get?_of_not
  · rintro ⟨p', hm, q', hq', hl⟩
    refine (hapart p' hm q' hq').2 (hl.trans ?_)
    exact (List.prefix_append_right_inj _).mpr (List.dropLast_prefix _)
  · rintro ⟨p', hm, q', hq', hl⟩
    exact (hapart p' hm q' hq').2 (hl ▸ List.prefix_refl _)

end

/-! ### Results and files -/

structure Accounts (b : Plan) (t u : FileTree) (files : List Path) (rs : List FileResult) :
    Prop where
  sources : rs.map FileResult.source <+: files
  targets : ∀ r ∈ rs, b.roots.practiceOf r.source = .ok r.target
  steps : ∀ r ∈ rs, r.steps ∈ stepLists
  front : ∀ r ∈ rs.dropLast, r.failed = false
  whole : (∀ r ∈ rs, r.failed = false) → rs.map FileResult.source = files
  untouched : ∀ p ∈ files.drop rs.length, Untouched b t u p

theorem buildFiles_accounts (h : t.WellFormed) (b : Plan) (script : Option SceneScript)
    (forced : Bool) (time : Int) (excludes : List Text) (recursive : Bool)
    (ha : (buildFiles b script forced time t (scan t excludes d pattern recursive)).abort = none) :
    Accounts b t (buildFiles b script forced time t (scan t excludes d pattern recursive)).tree
      (scan t excludes d pattern recursive)
      (buildFiles b script forced time t (scan t excludes d pattern recursive)).result := by
  obtain ⟨hsources, hwhole⟩ := buildFiles_sources ha
  have hreported := buildFiles_reported b script forced time t (scan t excludes d pattern recursive)
  have hnodup := nodup_scan h excludes d pattern recursive
  refine ⟨hsources, fun r hr => (hreported r hr).target, fun r hr => (hreported r hr).steps,
    buildFiles_front _ _ _ _ _ _, hwhole, fun p hp q hq => ?_⟩
  rw [← buildFiles_take ha]
  have hscan := List.mem_of_mem_drop hp
  have htaken : ∀ p' ∈ (scan t excludes d pattern recursive).take
      (buildFiles b script forced time t (scan t excludes d pattern recursive)).result.length,
      p ≠ p' ∧ p' ∈ scan t excludes d pattern recursive := by
    intro p' hp'
    refine ⟨?_, List.mem_of_mem_take hp'⟩
    rintro rfl
    exact List.disjoint_take_drop hnodup (Nat.le_refl _) hp' hp
  exact ⟨fun c τ => buildFiles_spares h hscan htaken hq script forced time c τ,
    fun hd => buildFiles_entry h hscan htaken hq hd script forced time⟩

/-! ### Directories and reports -/

theorem buildDirectory_steps (b : Plan) (t : FileTree) (forced : Bool) (pattern : Option Text)
    (time : Int) (d : Path) :
    ∀ r ∈ (buildDirectory b t forced pattern time d).result.files, r.steps ∈ stepLists := by
  rw [buildDirectory]
  cases b.scriptName with
  | none => exact fun r hr => absurd hr List.not_mem_nil
  | some name =>
    simp only [buildWithScript]
    cases loadScript t d name with
    | error e =>
      simp only
      cases b.roots.practiceOf d with
      | error a => exact fun r hr => absurd hr List.not_mem_nil
      | ok target => exact List.forall_mem_singleton.mpr (by simp [stepLists])
    | ok script =>
      simp only
      cases b.filesOf t d pattern with
      | error e => exact fun r hr => absurd hr List.not_mem_nil
      | ok files => exact fun r hr => (buildFiles_reported b script forced time t files r hr).steps

theorem buildDirectories_steps (b : Plan) (forced : Bool) (pattern : Option Text) (time : Int)
    (t : FileTree) (ds : List Path) :
    ∀ e ∈ (buildDirectories b forced pattern time t ds).result, ∀ r ∈ e.files,
      r.steps ∈ stepLists := by
  induction ds generalizing t with
  | nil => exact fun e he => absurd he List.not_mem_nil
  | cons d ds ih =>
    have hd := buildDirectory_steps b t forced pattern time d
    rw [buildDirectories]
    cases hb : buildDirectory b t forced pattern time d with
    | mk u e a =>
      rw [hb] at hd
      cases a with
      | some a => exact List.forall_mem_singleton.mpr hd
      | none => exact List.forall_mem_cons.mpr ⟨hd, ih u⟩

theorem buildAll_steps (b : Plan) (t : FileTree) (forced : Bool) (pattern : Option Text)
    (time : Int) : ∀ r ∈ (buildAll b t forced pattern time).result.results, r.steps ∈ stepLists := by
  intro r hr
  obtain ⟨e, he, hr⟩ := List.mem_flatMap.mp hr
  rw [buildAll] at he
  cases hds : b.exercises t pattern with
  | error m => simp [hds] at he
  | ok ds =>
    simp only [hds] at he
    exact buildDirectories_steps b forced pattern time t ds e he r hr

theorem count_fail {report : BuildReport} (h : ∀ r ∈ report.results, r.steps ∈ stepLists) :
    report.count .fail = report.failures.length := by
  rw [BuildReport.count_eq, BuildReport.failures_eq, ← List.countP_eq_length_filter]
  refine List.countP_congr fun r hr => ?_
  rw [failed_eq_outcome (h r hr)]

theorem buildDirectory_accounts (h : t.WellFormed) (b : Plan) (forced : Bool)
    (pattern : Option Text) (time : Int) (d : Path)
    (ha : (buildDirectory b t forced pattern time d).abort = none) :
    ∃ name, b.scriptName = some name ∧
      (∀ script, loadScript t d name = .ok script →
        Accounts b t (buildDirectory b t forced pattern time d).tree
          (scan t b.excludes.patterns d pattern (d != b.roots.solutions))
          (buildDirectory b t forced pattern time d).result.files) ∧
      ∀ e, loadScript t d name = .error e →
        (buildDirectory b t forced pattern time d).tree = t ∧
        ∃ r, (buildDirectory b t forced pattern time d).result.files = [r] ∧ r.steps = [.fail] := by
  obtain ⟨name, hn, ⟨e, q, hs, hr⟩ | ⟨script, files, hs, hf, hend, hr⟩⟩ := buildDirectory_cases ha
  · refine ⟨name, hn, fun script hs' => ?_, fun _ _ => ?_⟩
    · rw [hs] at hs'
      cases hs'
    · rw [hr]
      exact ⟨rfl, _, rfl, rfl⟩
  · refine ⟨name, hn, fun _ _ => ?_, fun e hs' => ?_⟩
    · obtain ⟨rfl, -⟩ := scanWith_ok hf
      rw [hr]
      exact buildFiles_accounts h b script forced time _ _ hend
    · rw [hs] at hs'
      cases hs'

/-- A build of a directory that comes to an end accounts for its files, or has one failure if the
script cannot be loaded. The counts of a report on a whole build add up to its results, and those of
failed ones are its failures. A script can fail here as a whole or for a scene, and does nothing but
turn scenes into scenes. -/
theorem builds_account (h : t.WellFormed) (b : Plan) (forced : Bool) (pattern : Option Text)
    (time : Int) :
    (∀ d, (buildDirectory b t forced pattern time d).abort = none →
      let run := buildDirectory b t forced pattern time d
      let files := scan t b.excludes.patterns d pattern (d != b.roots.solutions)
      (files.Pairwise fun p q => p.parts < q.parts) ∧
      ∃ name, b.scriptName = some name ∧
        (∀ script, loadScript t d name = .ok script → Accounts b t run.tree files run.result.files) ∧
        ∀ e, loadScript t d name = .error e →
          run.tree = t ∧ ∃ r, run.result.files = [r] ∧ r.steps = [.fail]) ∧
    let report := (buildAll b t forced pattern time).result
    (Outcome.all.map report.count).sum = report.results.length ∧
      report.count .fail = report.failures.length ∧
      (report.ok = true ↔ report.count .fail = 0) := by
  have hfail := count_fail (buildAll_steps b t forced pattern time)
  refine ⟨fun d ha => ⟨increasing_scan h _ _ _ _, ?_⟩, BuildReport.sum_count _, hfail, ?_⟩
  · exact buildDirectory_accounts h b forced pattern time d ha
  · rw [hfail, BuildReport.ok_iff, List.length_eq_zero_iff]

def stoppedTree : FileTree where
  entries := [
    (["w"], .directory),
    (["w", "s"], .directory),
    (["w", "s", "l"], .directory),
    (["w", "s", "l", "a.gd"], .file [0xff] 5),
    (["w", "s", "l", "b.gd"], .file [] 5)]

def stoppedPlan : Plan where
  roots := Roots.ofNames (Path.ofText "/w") "s" "p" "res://"

def stoppedFiles : List Path :=
  [stoppedPlan.source ["l", "a.gd"], stoppedPlan.source ["l", "b.gd"]]

def stoppedRun : Run DirectoryResult :=
  buildDirectory stoppedPlan stoppedTree false none 6 (stoppedPlan.source ["l"])

theorem scan_stopped : scan stoppedTree stoppedPlan.excludes.patterns (stoppedPlan.source ["l"]) none
    (stoppedPlan.source ["l"] != stoppedPlan.roots.solutions) = stoppedFiles := by
  have hl : stoppedTree.locate (stoppedPlan.source ["l"]) = .ok ["w", "s", "l"] := by
    decide +kernel
  have hd : (stoppedTree.get? ["w", "s", "l"]).any Entry.isDirectory = true := by decide +kernel
  have hsorted : stoppedFiles.mergeSort Path.le = stoppedFiles :=
    List.mergeSort_of_pairwise (by decide +kernel)
  simp only [scan, hl, hd, if_true]
  rw [← hsorted]
  rfl

theorem builds_account_stopped : stoppedTree.WellFormed ∧ stoppedRun.abort = none ∧
    stoppedRun.result.files.map (fun r => (r.source, r.steps)) =
      [(stoppedPlan.source ["l", "a.gd"], [.copy, .fail])] ∧
    Accounts stoppedPlan stoppedTree stoppedRun.tree stoppedFiles stoppedRun.result.files := by
  have hwf : stoppedTree.WellFormed := by decide +kernel
  have hs : loadScript stoppedTree (stoppedPlan.source ["l"]) "diff.py" = .ok none := by
    decide +kernel
  have hrun : stoppedRun =
      let run := buildFiles stoppedPlan none false 6 stoppedTree stoppedFiles
      ⟨run.tree, ⟨stoppedPlan.source ["l"], run.result⟩, run.abort⟩ := by
    rw [stoppedRun, buildDirectory]
    simp only [show stoppedPlan.scriptName = some "diff.py".toList from rfl, buildWithScript, hs,
      Plan.filesOf, scanWith, scan_stopped, show stoppedPlan.excludes.complete = true from rfl,
      Bool.true_or, if_true]
  have ha : stoppedRun.abort = none := by
    rw [hrun]
    decide +kernel
  have hresults : stoppedRun.result.files.map (fun r => (r.source, r.steps)) =
      [(stoppedPlan.source ["l", "a.gd"], [.copy, .fail])] := by
    rw [hrun]
    decide +kernel
  obtain ⟨hall, -⟩ := builds_account hwf stoppedPlan false none 6
  obtain ⟨-, name, hname, hloaded, -⟩ := hall (stoppedPlan.source ["l"]) ha
  obtain rfl := Option.some.inj hname
  have haccounts := hloaded none hs
  rw [scan_stopped] at haccounts
  exact ⟨hwf, ha, hresults, haccounts⟩

end Build

end Coursework
