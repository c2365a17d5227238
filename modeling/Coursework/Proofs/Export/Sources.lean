import Coursework.Proofs.Export.Release

namespace Coursework.Export

open FileTree

variable {settings : Settings.Values} {programs : Programs} {project output : Path} {s : State}
  {own : Location → Prop}

/-- An export leaves each file, the sources among them, as it is, however it ends, if the file is
neither at nor below the output, nor what the name of the project file stands for from there, nor,
for a workbook, among the practices. Where a release is made, the files at and below the output are
those of the release and of the engine, whatever was there. -/
theorem exports_spare (h : s.tree.WellFormed) (hp : project.Resolved) (ho : output.Resolved)
    (hengine : programs.WorksIn output own) (settings : Settings.Values) (disablePlugins : Bool)
    (time : Int) :
    let built plan := (Build.buildAll plan s.tree false none time).tree
    let workbook := exportWorkbook settings programs project (.ok output) disablePlugins time s
    let reference := exportReference settings programs project (.ok output) disablePlugins time s
    (∀ l content τ, s.tree.get? l = some (.file content τ) → ¬Touched settings s.tree output l →
      reference.state.tree.get? l = some (.file content τ) ∧
      (¬Rebuilt settings s.tree project l →
        workbook.state.tree.get? l = some (.file content τ))) ∧
    (∀ out, reference.result = .ok out →
      ∃ name, leftOutName (settings .practicesDirectory) = .ok name ∧
        ∀ rel, ¬own rel → (reference.state.tree.FileAt (output.parts ++ rel) ↔
          Released project.parts output.parts name rel ∧ s.tree.FileAt (project.parts ++ rel))) ∧
    (∀ out, workbook.result = .ok out →
      ∃ plan name, Build.Plan.ofValues project settings false = .ok plan ∧
        leftOutName (settings .solutionsDirectory) = .ok name ∧
        ∀ rel, ¬own rel → (workbook.state.tree.FileAt (output.parts ++ rel) ↔
          Released project.parts output.parts name rel ∧
            (built plan).FileAt (project.parts ++ rel))) := by
  refine ⟨fun l c τ hg hl => ⟨?_, fun hr => ?_⟩, fun out hout => release_ok h hp ho hengine hout,
    fun out hout => exportWorkbook_ok h hp ho hengine hout⟩
  · exact (release_spares h hp ho hengine settings reference disablePlugins time l c τ hl).mpr hg
  · have hspares := exportWorkbook_spares h hp ho hengine settings disablePlugins time
    exact (hspares l c τ (not_or.mpr ⟨hl, hr⟩)).mpr hg

theorem exports_spare_nested : nestedTree.WellFormed ∧ nestedProject.Resolved ∧
    outerPlace.Resolved ∧ engine.WorksIn outerPlace Cached ∧
    nestedWorkbook.state.tree.get? ["w", "c", "s", "a.gd"] = some (.file [] 5) := by
  have hg : nestedTree.get? ["w", "c", "s", "a.gd"] = some (.file [] 5) := by decide
  have htouched : ¬Touched nestedSettings nestedTree outerPlace ["w", "c", "s", "a.gd"] := by
    rintro (hin | ⟨file, hf, hl⟩)
    · exact absurd hin (by decide)
    · obtain rfl : "project.godot".toList = file := Json.text.inj hf
      exact absurd hl (by decide)
  have hrebuilt : ¬Rebuilt nestedSettings nestedTree nestedProject ["w", "c", "s", "a.gd"] := by
    rintro ⟨plan, hplan, hin⟩
    rw [Build.InPractices, roots_of_ofValues rfl rfl hplan] at hin
    exact absurd hin (by decide)
  have hspare := exports_spare (s := ⟨nestedTree, [], []⟩) nestedTree_wellFormed
    nestedProject_resolved outerPlace_resolved engine_worksIn nestedSettings false 6
  exact ⟨nestedTree_wellFormed, nestedProject_resolved, outerPlace_resolved, engine_worksIn,
    (hspare.1 _ _ _ hg htouched).2 hrebuilt⟩

def innerReference : Run Path :=
  exportReference nestedSettings engine nestedProject (.ok (Path.ofText "/w/c/s")) false 6
    ⟨nestedTree, [], []⟩

theorem reference_replaces_solutions : innerReference.result = .ok (Path.ofText "/w/c/s") ∧
    nestedTree.get? ["w", "c", "s", "a.gd"] = some (.file [] 5) ∧
    innerReference.state.tree.get? ["w", "c", "s", "a.gd"] = none := by
  refine ⟨?_, ?_, ?_⟩ <;> decide +kernel

end Coursework.Export
