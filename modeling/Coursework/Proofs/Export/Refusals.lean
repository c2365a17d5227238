import Coursework.Proofs.Export.LeftOut

namespace Coursework.Export

open FileTree

variable {settings : Settings.Values} {programs : Programs} {v : Variant} {project output : Path}
  {disablePlugins : Bool} {time : Int} {s : State} {t u : FileTree} {e : Fault} {r : Refusal}

def Refusal.Early : Refusal → Prop
  | .failedImport .. => False
  | _ => True

def Releasable (settings : Settings.Values) (programs : Programs) (project : Path)
    (output : Except Fault Path) (t : FileTree) : Prop :=
  ∃ file out program, settings .projectFile = .text file ∧ output = .ok out ∧
    t.hasFile (project ++ Path.ofText file) = true ∧ overlaps project out = false ∧
    findEngine programs (engineOf settings) = .ok program

theorem copyProject_not_refused {js : List Json}
    (h : copyProject t project output js = (u, some e)) : e ≠ .refused r := by
  have hfault : (copyProject t project output js).2 = some e := by rw [h]
  rcases copyProject_cases t project output js with
    ⟨e', hne, hrun⟩ | ⟨w, -, ⟨e', hne, hrun⟩ | ⟨names, -, hrun⟩⟩
  · rw [hrun] at hfault
    exact Option.some.inj hfault ▸ hne r
  · rw [hrun] at hfault
    exact Option.some.inj hfault ▸ hne r
  · rw [hrun] at hfault
    obtain ⟨fault, -, rfl⟩ := Option.map_eq_some_iff.mp hfault
    exact ofCopy_ne_refused fault r

theorem editCopy_not_refused {file : Path}
    (h : (editCopy v file disablePlugins time s).result = .error e) : e ≠ .refused r := by
  rw [editCopy] at h
  rintro rfl
  split at h
  · cases h
  · cases h
  · simp only at h
    split at h <;> cases h

theorem runImport_refused {program : Text}
    (h : (runImport programs program v output s).result = .error (.refused r)) : ¬r.Early := by
  rw [runImport] at h
  split at h
  · cases h
  · cases h
  · obtain rfl := Fault.refused.inj (Except.error.inj h)
    exact id

theorem releaseWith_refused {projectFile : Text} {leftOut : Json} {program : Text}
    (h : (releaseWith projectFile leftOut program programs v project output disablePlugins time
      s).result = .error (.refused r)) : ¬r.Early := by
  rcases releaseWith_cases projectFile leftOut program programs v project output disablePlugins
    time s with ⟨e, hc, hresult⟩ | ⟨s', -, ⟨-, e, hedit, hresult⟩ | ⟨-, hrun⟩⟩
  · rw [hresult] at h
    exact absurd (Except.error.inj h) (copyProject_not_refused hc)
  · rw [hresult] at h
    exact absurd (Except.error.inj h) (editCopy_not_refused hedit)
  · rw [hrun] at h
    exact runImport_refused h

theorem release_error (settings : Settings.Values) (programs : Programs) (v : Variant)
    (project : Path) (e : Fault) (disablePlugins : Bool) (time : Int) (s : State) :
    release settings programs v project (.error e) disablePlugins time s = ⟨s, .error e⟩ := by
  rw [release]

theorem release_refused {output : Except Fault Path} (hr : r.Early)
    (h : (release settings programs v project output disablePlugins time s).result =
      .error (.refused r)) :
    (release settings programs v project output disablePlugins time s).state = s := by
  cases output with
  | error e => rw [release_error]
  | ok output =>
    rcases release_cases settings programs v project output disablePlugins time s with
      ⟨hs, -⟩ | ⟨file, program, -, hrun⟩
    · exact hs
    · rw [hrun] at h
      exact absurd hr (releaseWith_refused h)

theorem release_of_not_releasable {output : Except Fault Path}
    (h : ¬Releasable settings programs project output s.tree) :
    let run := release settings programs v project output disablePlugins time s
    run.state = s ∧ ∃ e, run.result = .error e := by
  cases output with
  | error e =>
    rw [release_error]
    exact ⟨rfl, e, rfl⟩
  | ok output =>
    rcases release_cases settings programs v project output disablePlugins time s with
      ⟨hs, e, he, -⟩ | ⟨file, program, ⟨hf, hfile, hover, hengine⟩, -⟩
    · exact ⟨hs, e, he⟩
    · exact absurd ⟨file, output, program, hf, rfl, hfile, hover, hengine⟩ h

/-- An export that is refused before the copy has run no command. That of the reference project has
changed nothing, and that of the workbook no file that is not among the practices. Where something
stands against a release, the reference project is refused. -/
theorem refused_untouched {solutions practices : Text} (h : s.tree.WellFormed)
    (hp : project.Resolved) (hs : settings .solutionsDirectory = .text solutions)
    (hps : settings .practicesDirectory = .text practices)
    (hrelative : (Path.ofText practices).anchor = .here)
    (hdescends : (Path.ofText practices).Descends) (programs : Programs)
    (output : Except Fault Path) (disablePlugins : Bool) (time : Int) :
    let workbook := exportWorkbook settings programs project output disablePlugins time s
    let reference := exportReference settings programs project output disablePlugins time s
    (∀ r : Refusal, r.Early → workbook.result = .error (.refused r) →
      s.tree.Confined workbook.state.tree (project.parts ++ Path.partsOf practices <+: ·) ∧
        workbook.state.commands = s.commands) ∧
    (∀ r : Refusal, r.Early → reference.result = .error (.refused r) → reference.state = s) ∧
    (¬Releasable settings programs project output s.tree →
      reference.state = s ∧ ∃ e, reference.result = .error e) := by
  refine ⟨fun r hr hw => ?_, fun r hr => release_refused hr, release_of_not_releasable⟩
  -- a workbook that is refused has been built at most
  rcases exportWorkbook_cases settings programs project output disablePlugins time s with
    ⟨hstate, -⟩ | ⟨plan, hplan, hrun⟩
  · rw [hstate]
    exact ⟨.refl h _, rfl⟩
  · have hinside : Inside project practices (Path.partsOf practices) :=
      inside_of_descends hp hrelative hdescends
    have hbuilt : s.tree.Confined (Build.buildAll plan s.tree false none time).tree
        (project.parts ++ Path.partsOf practices <+: ·) :=
      (Build.buildAll_confined h plan false none time).mono fun l hl =>
        (hinside.inPractices_iff hp hs hps hplan s.tree l).mp hl
    rcases hrun with ⟨htree, hcommands, -⟩ | ⟨s', htree, hcommands, hrun⟩
    · exact ⟨htree ▸ hbuilt, hcommands⟩
    · rw [hrun] at hw ⊢
      rw [release_refused hr hw, htree, hcommands]
      exact ⟨hbuilt, rfl⟩

def overlappingWorkbook : Run Path :=
  exportWorkbook nestedSettings engine nestedProject (.ok nestedProject) false 6
    ⟨nestedTree, [], []⟩

theorem refused_untouched_overlapping :
    nestedTree.WellFormed ∧ nestedProject.Resolved ∧ (Path.ofText "p").anchor = .here ∧
      (Path.ofText "p").Descends ∧
      overlappingWorkbook.result = .error (.refused (.overlap nestedProject)) ∧
      overlappingWorkbook.state.tree.get? ["w", "p", "a.gd"] ≠ none ∧
      nestedTree.Confined overlappingWorkbook.state.tree ((["w", "p"] : Location) <+: ·) ∧
      overlappingWorkbook.state.commands = [] := by
  have hrelative : (Path.ofText "p").anchor = .here := by decide
  have hdescends : (Path.ofText "p").Descends := by decide
  have hresult : overlappingWorkbook.result = .error (.refused (.overlap nestedProject)) := by
    decide +kernel
  have hs : nestedSettings .solutionsDirectory = .text "c/s" := rfl
  have hps : nestedSettings .practicesDirectory = .text "p" := rfl
  obtain ⟨hworkbook, -⟩ := refused_untouched (s := ⟨nestedTree, [], []⟩) nestedTree_wellFormed
    nestedProject_resolved hs hps hrelative hdescends engine (.ok nestedProject) false 6
  obtain ⟨hconfined, hcommands⟩ := hworkbook (.overlap nestedProject) trivial hresult
  exact ⟨nestedTree_wellFormed, nestedProject_resolved, hrelative, hdescends, hresult,
    by decide +kernel, hconfined, hcommands⟩

end Coursework.Export
