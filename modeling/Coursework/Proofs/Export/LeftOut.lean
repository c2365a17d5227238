import Coursework.Proofs.Export.Release
import Coursework.Proofs.Text.Pieces

namespace Coursework

namespace Path

theorem foldl_normal (qs seen : List Text) : ∃ added n,
    qs.foldl (fun seen w => if w = ['.', '.'] then seen.drop 1 else w :: seen) seen =
      added ++ seen.drop n ∧ ∀ w ∈ added, w ∈ qs := by
  induction qs generalizing seen with
  | nil => exact ⟨[], 0, rfl, fun w hw => hw⟩
  | cons q qs ih =>
    rw [List.foldl_cons]
    split
    · obtain ⟨added, n, h, hadded⟩ := ih (seen.drop 1)
      refine ⟨added, 1 + n, by rw [h, List.drop_drop], fun w hw => ?_⟩
      exact List.mem_cons_of_mem _ (hadded w hw)
    · obtain ⟨added, n, h, hadded⟩ := ih (q :: seen)
      cases n with
      | zero =>
        refine ⟨added ++ [q], 0, by simpa using h, fun w hw => ?_⟩
        rcases List.mem_append.mp hw with hw | hw
        · exact List.mem_cons_of_mem _ (hadded w hw)
        · rw [List.mem_singleton.mp hw]
          exact List.mem_cons_self
      | succ n => exact ⟨added, n, h, fun w hw => List.mem_cons_of_mem _ (hadded w hw)⟩

theorem mem_of_normalParts_eq {ps qs rs : List Text} (hp : ['.', '.'] ∉ ps)
    (h : normalParts (ps ++ qs) = ps ++ rs) {w : Text} (hw : w ∈ rs) : w ∈ qs := by
  obtain ⟨added, n, hfold, hadded⟩ := foldl_normal qs ps.reverse
  rw [normalParts, List.foldl_append, foldl_eq_append hp, List.append_nil, hfold,
    List.reverse_append] at h
  -- no more than the first part of ps is kept, so the rest is all added
  have hlen : (ps.reverse.drop n).reverse.length ≤ ps.length := by
    simp only [List.length_reverse, List.length_drop]
    omega
  have hkept : (ps.reverse.drop n).reverse <+: ps :=
    List.prefix_of_prefix_length_le (h ▸ List.prefix_append _ _) (List.prefix_append _ _) hlen
  obtain ⟨undone, hundone⟩ := hkept
  have hrest : (ps.reverse.drop n).reverse ++ added.reverse =
      (ps.reverse.drop n).reverse ++ (undone ++ rs) := by
    rw [h, ← List.append_assoc, hundone]
  apply hadded
  rw [← List.mem_reverse, List.append_cancel_left hrest]
  exact List.mem_append_right _ hw

theorem partsOf_of_mem {name : Text} (h : name ∈ partsOf name) : partsOf name = [name] := by
  obtain ⟨hm, hf⟩ := List.mem_filter.mp h
  rw [partsOf, Text.splitOn_of_not_mem (Text.not_mem_of_mem_splitOn hm)]
  exact List.filter_cons_of_pos hf

end Path

namespace Export

open FileTree

variable {settings : Settings.Values} {programs : Programs} {project output : Path}
  {disablePlugins : Bool} {time : Int} {s : State} {t u : FileTree} {name : Text}
  {rel r r' : Location} {out : Path} {own : Location → Prop}

structure Inside (project : Path) (name : Text) (r : Location) : Prop where
  relative : (Path.ofText name).anchor = .here
  place : Path.normalParts (project.parts ++ (Path.ofText name).parts) = project.parts ++ r

theorem Inside.head?_eq_some_iff (h : Inside project name r) (hp : project.Resolved)
    (hr : r ≠ []) : r.head? = some name ↔ Path.partsOf name = [name] := by
  obtain ⟨w, ws, rfl⟩ := List.exists_cons_of_ne_nil hr
  have hw : w ∈ Path.partsOf name :=
    Path.mem_of_normalParts_eq hp.descends h.place List.mem_cons_self
  constructor
  · intro he
    obtain rfl : w = name := Option.some.inj he
    exact Path.partsOf_of_mem hw
  · intro he
    rw [he, List.mem_singleton] at hw
    rw [hw]
    rfl

theorem inside_of_descends (hp : project.Resolved) (hrelative : (Path.ofText name).anchor = .here)
    (hdescends : (Path.ofText name).Descends) : Inside project name (Path.ofText name).parts where
  relative := hrelative
  place := Path.normalParts_of_not_mem fun h =>
    (List.mem_append.mp h).elim hp.descends hdescends

theorem Inside.site (h : Inside project name r) (hp : project.Resolved) (t : FileTree) :
    t.site (project ++ Path.ofText name) = project.parts ++ r := by
  rw [Path.append_of_here h.relative, site_eq, Path.under, FileTree.base, hp.anchor]
  exact h.place

theorem Inside.inPractices_iff {solutions practices : Text} (h : Inside project practices r)
    (hp : project.Resolved) (hs : settings .solutionsDirectory = .text solutions)
    (hps : settings .practicesDirectory = .text practices) {plan : Build.Plan}
    (hplan : Build.Plan.ofValues project settings false = .ok plan) (t : FileTree) (l : Location) :
    Build.InPractices plan t l ↔ project.parts ++ r <+: l := by
  rw [Build.InPractices, roots_of_ofValues hs hps hplan, Roots.ofNames, h.site hp]

/-- What a release holds of the directory that a setting stands for, beside files of the engine's
own: nothing if the setting is one name, else all that is released of any other directory. -/
def HoldsOf (t u : FileTree) (project output : Path) (own : Location → Prop) (name : Text)
    (r : Location) : Prop :=
  ∀ rel, ¬own (r ++ rel) → (u.FileAt (output.parts ++ r ++ rel) ↔ Path.partsOf name ≠ [name] ∧
    (∀ w ∈ r ++ rel, ¬AlwaysIgnored w) ∧ ¬output.parts <+: project.parts ++ r ++ rel ∧
    t.FileAt (project.parts ++ r ++ rel))

theorem Inside.holdsOf (h : Inside project name r) (hp : project.Resolved) (hr : r ≠ [])
    (hu : ∀ rel, ¬own rel → (u.FileAt (output.parts ++ rel) ↔
      Released project.parts output.parts (some name) rel ∧ t.FileAt (project.parts ++ rel))) :
    HoldsOf t u project output own name r := by
  intro rel hown
  rw [List.append_assoc, hu _ hown, List.append_assoc]
  have hfirst : (r ++ rel).head? = some name ↔ Path.partsOf name = [name] := by
    rw [← h.head?_eq_some_iff hp hr, List.head?_append_of_ne_nil _ hr]
  constructor
  · rintro ⟨hreleased, hfile⟩
    refine ⟨fun he => ?_, hreleased.names, hreleased.outside, hfile⟩
    exact hreleased.first name rfl (hfirst.mpr he)
  · rintro ⟨hne, hnames, houtside, hfile⟩
    refine ⟨⟨hnames, fun w hw hhead => ?_, houtside⟩, hfile⟩
    obtain rfl := Option.some.inj hw
    exact hne (hfirst.mp hhead)

/-- The tree that an export is to leave out is left out if the setting is one name. If the setting
leads further down, or spells the name in another way, the tree is released. -/
theorem exports_holdsOf {solutions practices : Text} (h : s.tree.WellFormed)
    (hp : project.Resolved) (ho : output.Resolved)
    (hs : settings .solutionsDirectory = .text solutions)
    (hps : settings .practicesDirectory = .text practices) (hr : Inside project solutions r)
    (hr' : Inside project practices r') (hapart : ¬r <+: r') (hapart' : ¬r' <+: r)
    (hengine : programs.WorksIn output own) (disablePlugins : Bool) (time : Int) :
    let workbook := exportWorkbook settings programs project (.ok output) disablePlugins time s
    let reference := exportReference settings programs project (.ok output) disablePlugins time s
    (∀ out, workbook.result = .ok out →
      HoldsOf s.tree workbook.state.tree project output own solutions r) ∧
    (∀ out, reference.result = .ok out →
      HoldsOf s.tree reference.state.tree project output own practices r') := by
  have hne : r ≠ [] := fun hn => hapart (hn ▸ List.nil_prefix)
  have hne' : r' ≠ [] := fun hn => hapart' (hn ▸ List.nil_prefix)
  constructor
  · intro out hout
    obtain ⟨plan, name, hplan, hname, hfiles⟩ := exportWorkbook_ok h hp ho hengine hout
    rw [hs] at hname
    obtain rfl := Except.ok.inj hname
    intro rel hown
    rw [hr.holdsOf hp hne hfiles rel hown]
    -- the practices that the build makes lie elsewhere
    have hbuilt : ¬Build.InPractices plan s.tree (project.parts ++ r ++ rel) := fun hin => by
      rw [Build.InPractices, roots_of_ofValues hs hps hplan, Roots.ofNames, hr'.site hp,
        List.append_assoc, List.prefix_append_right_inj] at hin
      exact (List.prefix_or_prefix_of_prefix hin (List.prefix_append r rel)).elim hapart' hapart
    rw [(Build.buildAll_confined h plan false none time).spares.fileAt hbuilt]
  · intro out hout
    obtain ⟨name, hname, hfiles⟩ := release_ok h hp ho hengine hout
    have hleft : settings reference.leftOut = .text practices := hps
    rw [hleft] at hname
    obtain rfl := Except.ok.inj hname
    exact hr'.holdsOf hp hne' hfiles

theorem nested_inside : Inside nestedProject "c/s" ["c", "s"] := ⟨by decide, by decide⟩

theorem practices_inside : Inside nestedProject "p" ["p"] := ⟨by decide, by decide⟩

theorem exports_holdsOf_nested : nestedTree.WellFormed ∧ nestedProject.Resolved ∧
    outerPlace.Resolved ∧ Inside nestedProject "c/s" ["c", "s"] ∧ Inside nestedProject "p" ["p"] ∧
    engine.WorksIn outerPlace Cached ∧ nestedWorkbook.result = .ok outerPlace ∧
    HoldsOf nestedTree nestedWorkbook.state.tree nestedProject outerPlace Cached "c/s"
      ["c", "s"] := by
  have hs : nestedSettings .solutionsDirectory = .text "c/s" := rfl
  have hresult : nestedWorkbook.result = .ok outerPlace := by decide +kernel
  have hholds := exports_holdsOf (s := ⟨nestedTree, [], []⟩) nestedTree_wellFormed
    nestedProject_resolved outerPlace_resolved hs rfl nested_inside practices_inside (by decide)
    (by decide) engine_worksIn false 6
  exact ⟨nestedTree_wellFormed, nestedProject_resolved, outerPlace_resolved, nested_inside,
    practices_inside, engine_worksIn, hresult, hholds.1 _ hresult⟩

theorem workbook_ships_solution : Inside nestedProject "c/s" ["c", "s"] ∧
    Inside nestedProject "p" ["p"] ∧ nestedWorkbook.result = .ok outerPlace ∧
    nestedWorkbook.state.tree.get? ["o", "c", "s", "a.gd"] = some (.file [] 5) := by
  refine ⟨nested_inside, practices_inside, ?_, ?_⟩ <;> decide +kernel

end Export

end Coursework
