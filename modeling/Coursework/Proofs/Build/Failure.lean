import Coursework.Proofs.Build.Content
import Coursework.Proofs.Text.Utf8

namespace Coursework.Build

variable {b : Plan} {t u v : FileTree} {script : Option SceneScript} {source target : Path}
  {time σ : Int} {content c : Utf8.Bytes} {r : FileResult}

theorem convert_error {extension m : Text} (hr : v.readBytes target = .ok c)
    (hw : ∀ d, ∃ w, v.writeBytes target d time = .ok w)
    (h : convert b v extension target time = .ok (.error m)) :
    b.conversion.covers extension = true ∧ ∃ e, Utf8.decode c = .error e := by
  rw [convert] at h
  by_cases hc : b.conversion.covers extension = true
  · refine ⟨hc, ?_⟩
    simp only [hc, if_true, FileTree.readText, hr] at h
    cases hd : Utf8.decode c with
    | error e => exact ⟨e, rfl⟩
    | ok s =>
      simp only [hd] at h
      cases hp : b.conversion.practiceText (Text.unifyLineEnds s) with
      | none => simp [hp] at h
      | some x =>
        obtain ⟨w, hw⟩ := hw (Utf8.encode x)
        simp [hp, FileTree.writeText, hw] at h
  · simp [hc] at h

theorem regenerate_produce_error {m : Text} (h : t.WellFormed) (ht : target.Descends)
    (hd : t.get? (t.landing target.parent) = some .directory)
    (hp : produce b t script source target time = .ok (.error m)) :
    (regenerate b t script source target time).result = .ok ⟨source, target, [.fail], m⟩ := by
  have he : t.ensureDirectories target.parent = (t, none) :=
    FileTree.ensureDirectoriesWithin_present ((FileTree.hasDirectory_iff h ht.parent).mpr hd) _
  simp only [regenerate, he, hp]
  rfl

theorem regenerate_no_directory (hd : (t.ensureDirectories target.parent).2 ≠ none)
    (hr : (regenerate b t script source target time).result = .ok r) : r.failed = true := by
  rw [regenerate] at hr
  cases he : t.ensureDirectories target.parent with
  | mk u o =>
    rw [he] at hr hd
    cases o with
    | none => exact absurd rfl hd
    | some e =>
      cases e with
      | nullCharacter => cases hr
      | _ =>
        rw [← Except.ok.inj hr]
        rfl

theorem ensureDirectories_fails_again (h : t.WellFormed) {p : Path} (hp : p.Descends)
    {e : FileFault} (hd : t.ensureDirectories p = (u, some e)) (he : e ≠ .nullCharacter) :
    (u.ensureDirectories p).2 ≠ none := by
  have hn : p.hasNull = false := by
    by_contra hn
    rw [FileTree.ensureDirectories_of_hasNull (Bool.eq_true_of_not_eq_false hn)] at hd
    obtain ⟨-, hd⟩ := Prod.mk.inj hd
    split at hd
    · cases hd
    · exact he (Option.some.inj hd).symm
  exact h.ensureDirectories_again hp hn hd

theorem regenerate_failed (h : t.WellFormed) (ht : target.Descends)
    (hr : regenerate b t script source target time = ⟨u, .ok r⟩) (hf : r.failed = true) :
    (r.steps = [.fail] ∧ t.Extends u (t.landing target.parent) ∧
      ∀ τ r', (regenerate b u script source target τ).result = .ok r' → r'.failed = true) ∨
    (r.steps = [.copy, .fail] ∧ ∃ x content e, t.Extends x (t.landing target.parent) ∧
      x.readBytes source = .ok content ∧ x.same source target = false ∧
      x.writeBytes target content time = .ok u ∧
      b.conversion.covers source.extension = true ∧ Utf8.decode content = .error e) := by
  obtain ⟨hx, hdir⟩ := h.ensureDirectories ht.parent
  cases regenerates hr with
  | blocked hd he =>
    rw [hd] at hx
    have hagain := ensureDirectories_fails_again h ht.parent hd he
    exact .inl ⟨rfl, hx, fun τ r' hr' => regenerate_no_directory hagain hr'⟩
  | unproduced hd hp =>
    rw [hd] at hx hdir
    have hdir := hdir rfl
    rw [← FileTree.landing_congr hx.place] at hdir
    refine .inl ⟨rfl, hx, fun τ r' hr' => ?_⟩
    rw [regenerate_produce_error hx.wellFormed ht hdir (produce_error hp τ)] at hr'
    rw [← Except.ok.inj hr']
    rfl
  | unconverted hd hp hc =>
    rw [hd] at hx
    obtain ⟨content, c, hread, -, hw, hstep⟩ := produce_ok hp
    have hagain : ∀ d, ∃ w, u.writeBytes target d time = .ok w := fun d => by
      obtain ⟨hagain, w, hw⟩ := FileTree.writeBytes_written hw d time
      exact ⟨w, hagain.trans hw⟩
    obtain ⟨hcovers, e, hdecode⟩ := convert_error (FileTree.readBytes_written hw) hagain hc
    -- an edited scene was encoded, so only a copy can fail to be text
    rcases hstep with ⟨rfl, rfl, hsame⟩ | ⟨-, s, rfl⟩
    · exact .inr ⟨rfl, _, c, e, hx, hread, hsame, hw, hcovers, hdecode⟩
    · rw [Utf8.decode_encode] at hdecode
      cases hdecode
  | @done _ _ _ step _ hd hp hc =>
    rw [hd] at hx
    obtain ⟨content, c, -, -, hw, hstep⟩ := produce_ok hp
    have hnot := (convert_ok (FileTree.readBytes_written hw) hc).1
    have hfirst : step ≠ .fail := by
      obtain ⟨rfl, -⟩ | ⟨rfl, -⟩ := hstep <;> decide
    simp [FileResult.failed, hnot, Ne.symm hfirst] at hf

structure Later (t : FileTree) (script : Option SceneScript) (time : Int) : Prop where
  file : ∀ l c τ, t.get? l = some (.file c τ) → τ < time
  script : (script.map SceneScript.time).getD 0 < time

theorem later_of_entries (hf : ∀ f ∈ t.entries, f.2.isFile = true → f.2.time < time)
    (hs : (script.map SceneScript.time).getD 0 < time) : Later t script time := by
  refine ⟨fun l c τ hg => ?_, hs⟩
  have hne : l ≠ [] := by
    rintro rfl
    cases hg
  exact hf _ (FileTree.mem_keys_of_get? hne hg) rfl

theorem buildFile_upToDate (hp : b.roots.practiceOf source = .ok target)
    (hup : upToDate (t.timeOf source) (t.timeOf target) ((script.map SceneScript.time).getD 0)
      (t.hasPath target) false = true) :
    (buildFile b t script false source time).result = .ok ⟨source, target, [.skip], []⟩ := by
  simp only [buildFile, hp, hup, if_true]

theorem buildFile_regenerate (hp : b.roots.practiceOf source = .ok target)
    (hup : upToDate (t.timeOf source) (t.timeOf target) ((script.map SceneScript.time).getD 0)
      (t.hasPath target) false = false) :
    buildFile b t script false source time = regenerate b t script source target time := by
  simp only [buildFile, hp, hup, Bool.false_eq_true, if_false]

theorem upToDate_of_written (ht : target.Descends) (hσ : σ < time)
    (hscript : (script.map SceneScript.time).getD 0 < time)
    (hs : t.entry source = some (.file content σ)) {x : FileTree}
    (hx : t.Extends x (t.landing target.parent)) (hsame : x.same source target = false)
    (hw : x.writeBytes target c time = .ok u) :
    upToDate (u.timeOf source) (u.timeOf target) ((script.map SceneScript.time).getD 0)
      (u.hasPath target) false = true := by
  have hwrote := hx.wrote ht hw
  have htarget : u.entry target = some (.file c time) := by
    rw [hwrote.wellFormed.entry_eq ht, FileTree.landing_congr hwrote.place, hwrote.get?_self]
  obtain ⟨l, hloc, hg⟩ := FileTree.entry_eq_some_iff.mp (hx.entry hs)
  obtain ⟨l', hloc', hg'⟩ := FileTree.entry_eq_some_iff.mp hs
  -- the solution is not the practice, so it is still what it was
  have hne : l ≠ t.landing target := by
    rintro rfl
    have htl := hx.wellFormed.locate_of_get? ht (FileTree.landing_congr hx.place target ▸ hg)
    rw [FileTree.landing_congr hx.place] at htl
    simp [FileTree.same, hloc, htl, hg] at hsame
  have hll : l = l' := Except.ok.inj (hloc.symm.trans (hx.locate hloc'))
  have hsource : u.entry source = some (.file content σ) := by
    refine FileTree.entry_eq_some_iff.mpr ⟨l, ?_, (hwrote.get?_of_file hne).mpr (hll ▸ hg')⟩
    rw [hll]
    exact FileTree.locate_mono (fun m hd => hwrote.directory hd) hwrote.place hloc'
  rw [upToDate_iff, FileTree.timeOf, FileTree.timeOf, FileTree.hasPath, hsource, htarget]
  exact ⟨rfl, rfl, hσ, hscript⟩

theorem upToDate_of_wrote (ht : target.Descends) (hl : Later t script time)
    (hs : t.entry source = some (.file content σ)) {x : FileTree}
    (hx : t.Extends x (t.landing target.parent)) (hsame : x.same source target = false)
    (hw : x.writeBytes target c time = .ok u) :
    upToDate (u.timeOf source) (u.timeOf target) ((script.map SceneScript.time).getD 0)
      (u.hasPath target) false = true := by
  obtain ⟨l, -, hg⟩ := FileTree.entry_eq_some_iff.mp hs
  exact upToDate_of_written ht (hl.file l content σ hg) hl.script hs hx hsame hw

/-- After a build that fails for a file, the next one takes the file for up to date exactly if the
failure came after the copy, of bytes that are no text. Else it does not succeed either. What a
build writes has the time of the build, and a directory in the place of a practice has none. -/
theorem build_after_failure (h : t.WellFormed) (hp : b.roots.practiceOf source = .ok target)
    (ht : target.Descends) (hs : t.entry source = some (.file content σ))
    (hl : Later t script time) (hr : buildFile b t script false source time = ⟨u, .ok r⟩)
    (hf : r.failed = true) (later : Int) :
    ((buildFile b u script false source later).result = .ok ⟨source, target, [.skip], []⟩ ↔
      r.steps = [.copy, .fail]) ∧
    (r.steps = [.copy, .fail] → b.conversion.covers source.extension = true ∧
      (∃ e, Utf8.decode content = .error e) ∧ u.readBytes target = .ok content) ∧
    (r.steps ≠ [.copy, .fail] → ∀ r',
      (buildFile b u script false source later).result = .ok r' → r'.failed = true) := by
  have hup : upToDate (t.timeOf source) (t.timeOf target) ((script.map SceneScript.time).getD 0)
      (t.hasPath target) false = false := by
    by_contra hup
    have hskip : (buildFile b t script false source time).result = _ :=
      buildFile_upToDate hp (Bool.eq_true_of_not_eq_false hup)
    rw [hr] at hskip
    rw [Except.ok.inj hskip] at hf
    cases hf
  rw [buildFile_regenerate hp hup] at hr
  -- either nothing was written, or what was copied is newer than its source
  rcases regenerate_failed h ht hr hf with ⟨hsteps, hx, hagain⟩ |
    ⟨hsteps, x, content', e, hx, hread, hsame, hw, hcovers, hdecode⟩
  · have hup' : upToDate (u.timeOf source) (u.timeOf target)
        ((script.map SceneScript.time).getD 0) (u.hasPath target) false = false := by
      rw [FileTree.timeOf, FileTree.timeOf, FileTree.hasPath, hx.entry_below h ht, hx.entry hs,
        ← hs]
      exact hup
    have hnot : r.steps ≠ [.copy, .fail] := by simp [hsteps]
    rw [buildFile_regenerate hp hup']
    refine ⟨⟨fun hskip => ?_, fun hc => absurd hc hnot⟩, fun hc => absurd hc hnot,
      fun _ r' hr' => hagain later r' hr'⟩
    have hfailed := hagain later _ hskip
    cases hfailed
  · have hskip : (buildFile b u script false source later).result = _ :=
      buildFile_upToDate hp (upToDate_of_wrote ht hl hs hx hsame hw)
    obtain rfl := FileTree.readBytes_of_entry (hx.entry hs) hread
    have hwritten := FileTree.readBytes_written hw
    exact ⟨⟨fun _ => hsteps, fun _ => hskip⟩, fun _ => ⟨hcovers, ⟨e, hdecode⟩, hwritten⟩,
      fun hc => absurd hsteps hc⟩

def rawPlan : Plan where
  roots := Roots.ofNames (Path.ofText "/w") "s" "p" "res://"

def rawTree : FileTree where
  entries := [
    (["w"], .directory),
    (["w", "s"], .directory),
    (["w", "s", "l"], .directory),
    (["w", "s", "l", "a.gd"], .file [0xFF] 5)]

def rawSource : Path := rawPlan.roots.solutions.child "l" |>.child "a.gd"

def rawTarget : Path := rawPlan.roots.practices.child "l" |>.child "a.gd"

def rawFirst : Done (Except Abort FileResult) := buildFile rawPlan rawTree none false rawSource 6

theorem build_after_failure_raw : rawTree.WellFormed ∧
    rawPlan.roots.practiceOf rawSource = .ok rawTarget ∧ rawTarget.Descends ∧
    rawTree.entry rawSource = some (.file [0xFF] 5) ∧ Later rawTree none 6 ∧
    ∃ r, rawFirst = ⟨rawFirst.tree, .ok r⟩ ∧ r.failed = true ∧ r.steps = [.copy, .fail] ∧
      (buildFile rawPlan rawFirst.tree none false rawSource 7).result =
        .ok ⟨rawSource, rawTarget, [.skip], []⟩ := by
  have hwf : rawTree.WellFormed := by decide +kernel
  have hp : rawPlan.roots.practiceOf rawSource = .ok rawTarget := by decide +kernel
  have ht : rawTarget.Descends := by decide +kernel
  have hs : rawTree.entry rawSource = some (.file [0xFF] 5) := by decide +kernel
  have hl : Later rawTree none 6 := later_of_entries (by decide +kernel) (by decide)
  have hresult : rawFirst.result = .ok ⟨rawSource, rawTarget, [.copy, .fail],
      Utf8.Fault.message ⟨0xFF, 0, 1, .invalidStart⟩⟩ := by decide +kernel
  have hr : rawFirst = ⟨rawFirst.tree, .ok _⟩ := congrArg (Done.mk rawFirst.tree) hresult
  obtain ⟨hskip, -⟩ := build_after_failure hwf hp ht hs hl hr rfl 7
  exact ⟨hwf, hp, ht, hs, hl, _, hr, rfl, rfl, hskip.mpr rfl⟩

theorem failure_forgotten :
    (buildAll rawPlan rawTree false none 6).abort = none ∧
    (buildAll rawPlan rawTree false none 6).result.ok = false ∧
    (buildAll rawPlan (buildAll rawPlan rawTree false none 6).tree false none 7).abort = none ∧
    (buildAll rawPlan (buildAll rawPlan rawTree false none 6).tree false none 7).result.ok = true := by
  refine ⟨?_, ?_, ?_, ?_⟩ <;> decide +kernel

end Coursework.Build
