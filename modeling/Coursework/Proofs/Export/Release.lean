import Coursework.Proofs.Build.Frame
import Coursework.Proofs.Export.Copying

namespace Coursework.Export

open FileTree

variable {settings : Settings.Values} {programs : Programs} {v : Variant} {project output : Path}
  {disablePlugins : Bool} {time : Int} {s : State} {t u : FileTree} {l : Location} {out : Path}
  {projectFile : Text} {leftOut : Json} {program : Text} {own : Location → Prop}

/-! ### The project file of the copy -/

theorem editCopy_tree (v : Variant) (file : Path) (disablePlugins : Bool) (time : Int) (s : State) :
    (editCopy v file disablePlugins time s).state.tree = s.tree ∨
      ∃ l content, s.tree.locate file = .ok l ∧ s.tree.FileAt l ∧
        (editCopy v file disablePlugins time s).state.tree = s.tree.put l (.file content time) := by
  have hprint : ∀ (c : Prop) [Decidable c] markup,
      (if c then s else s.print markup).tree = s.tree := fun c _ markup => by split <;> rfl
  rw [editCopy]
  cases hr : s.tree.readText file with
  | error e => cases e <;> exact .inl rfl
  | ok text =>
    simp only [hprint]
    split
    · exact .inl (hprint _ _)
    · next t hw =>
      right
      rw [FileTree.readText] at hr
      cases hb : s.tree.readBytes file with
      | error e => simp [hb] at hr
      | ok c =>
        obtain ⟨-, l, τ, hl, hg⟩ := readBytes_iff.mp hb
        obtain ⟨-, m, hm, -, ht⟩ := writeBytes_iff.mp hw
        obtain rfl := Except.ok.inj (hl.symm.trans hm)
        exact ⟨l, _, hl, ⟨c, τ, hg⟩, ht⟩

theorem editCopy_fileAt (v : Variant) (file : Path) (disablePlugins : Bool) (time : Int)
    (s : State) (l : Location) :
    (editCopy v file disablePlugins time s).state.tree.FileAt l ↔ s.tree.FileAt l := by
  rcases editCopy_tree v file disablePlugins time s with h | ⟨m, c, -, hm, h⟩
  · rw [h]
  · have hne : m ≠ [] := by
      rintro rfl
      obtain ⟨c, τ, hg⟩ := hm
      cases hg
    rw [h, FileAt]
    simp only [get?_put s.tree _ hne]
    split
    · next he =>
      rw [he]
      exact ⟨fun _ => hm, fun _ => ⟨c, time, rfl⟩⟩
    · exact Iff.rfl

theorem editCopy_spares {file : Path} (ha : file.anchor ≠ .here) (v : Variant)
    (disablePlugins : Bool) (time : Int) (s : State) :
    s.tree.Spares (editCopy v file disablePlugins time s).state.tree (· = s.tree.site file) := by
  rcases editCopy_tree v file disablePlugins time s with h | ⟨m, c, hm, ⟨c', τ, hg⟩, h⟩
  · rw [h]
    exact .refl _ _
  · have hbase : ['.', '.'] ∉ s.tree.base file.anchor := by
      rw [FileTree.base, if_neg ha]
      exact List.not_mem_nil
    have hsite := locate_eq_site hbase hm
    have hne : m ≠ [] := by
      rintro rfl
      cases hg
    intro l c'' τ' hl
    rw [h, get?_put _ _ hne, if_neg (hsite ▸ hl)]

/-! ### Releases -/

theorem anchor_append {p q : Path} (h : p.anchor = .root) : (p ++ q).anchor ≠ .here := by
  change (p.append q).anchor ≠ .here
  rw [Path.append]
  cases hq : q.anchor <;> simp [h, hq]

theorem site_anchored (t u : FileTree) {p : Path} (h : p.anchor ≠ .here) : u.site p = t.site p := by
  rw [site_eq, site_eq, FileTree.base, FileTree.base, if_neg h, if_neg h]

/-- What running a program on a release may do to the files: it works in the output only, and makes
or removes no files there but its own. -/
structure Programs.WorksIn (programs : Programs) (output : Path) (own : Location → Prop) : Prop where
  outside : ∀ program (t : FileTree),
    t.Spares (programs.run (importCommand program output) t).tree (output.parts <+: ·)
  inside : ∀ program (t : FileTree) rel, ¬own rel →
    ((programs.run (importCommand program output) t).tree.FileAt (output.parts ++ rel) ↔
      t.FileAt (output.parts ++ rel))

theorem runImport_tree (programs : Programs) (program : Text) (v : Variant) (output : Path)
    (s : State) : (runImport programs program v output s).state.tree =
      (programs.run (importCommand program output) s.tree).tree := by
  rw [runImport]
  simp only [State.print]
  split <;> rfl

theorem releaseWith_cases (projectFile : Text) (leftOut : Json) (program : Text)
    (programs : Programs) (v : Variant) (project output : Path) (disablePlugins : Bool) (time : Int)
    (s : State) :
    let run := releaseWith projectFile leftOut program programs v project output disablePlugins time s
    (∃ e, copyProject s.tree project output [leftOut] = (run.state.tree, some e) ∧
      run.result = .error e) ∨
    ∃ s', copyProject s.tree project output [leftOut] = (s'.tree, none) ∧
      let edit := editCopy v (output ++ Path.ofText projectFile) disablePlugins time s'
      (run.state.tree = edit.state.tree ∧ ∃ e, edit.result = .error e ∧ run.result = .error e) ∨
        edit.result = .ok () ∧ run = runImport programs program v output edit.state := by
  let printed := s.print (Console.styled "cyan" ("Copying project to " ++ output.text ++ "..."))
  rw [releaseWith]
  simp only [State.print]
  cases hc : copyProject s.tree project output [leftOut] with
  | mk t o =>
    cases o with
    | some e => exact .inl ⟨e, rfl, rfl⟩
    | none =>
      refine .inr ⟨⟨t, printed.console, s.commands⟩, rfl, ?_⟩
      simp only
      split
      · next he =>
        exact .inl ⟨(congrArg (fun r => r.state.tree) he).symm, _, congrArg Run.result he, rfl⟩
      · next he =>
        exact .inr ⟨congrArg Run.result he,
          (congrArg (fun r => runImport programs program v output r.state) he).symm⟩

structure Admitted (settings : Settings.Values) (programs : Programs) (project output : Path)
    (t : FileTree) (file program : Text) : Prop where
  named : settings .projectFile = .text file
  there : t.hasFile (project ++ Path.ofText file) = true
  apart : overlaps project output = false
  engine : findEngine programs (engineOf settings) = .ok program

def Barred (settings : Settings.Values) (programs : Programs) (project output : Path)
    (t : FileTree) : Prop :=
  ∃ file, settings .projectFile = .text file ∧
    (t.hasFile (project ++ Path.ofText file) = false ∨ overlaps project output = true ∨
      ∃ r, findEngine programs (engineOf settings) = .error (.refused r))

theorem Admitted.not_barred (h : Admitted settings programs project output t projectFile program) :
    ¬Barred settings programs project output t := by
  rintro ⟨file, hf, hthere | hover | ⟨r, hengine⟩⟩
  · obtain rfl := Json.text.inj (h.named.symm.trans hf)
    cases hthere.symm.trans h.there
  · cases hover.symm.trans h.apart
  · cases hengine.symm.trans h.engine

theorem release_cases (settings : Settings.Values) (programs : Programs) (v : Variant)
    (project output : Path) (disablePlugins : Bool) (time : Int) (s : State) :
    let run := release settings programs v project (.ok output) disablePlugins time s
    (run.state = s ∧ ∃ e, run.result = .error e ∧
      ((∃ r, e = .refused r) ↔ Barred settings programs project output s.tree) ∧
      ∀ file program, ¬Admitted settings programs project output s.tree file program) ∨
    ∃ file program, Admitted settings programs project output s.tree file program ∧
      run = releaseWith file (settings v.leftOut) program programs v project output disablePlugins
        time s := by
  have hrefused : Barred settings programs project output s.tree → ∀ r,
      ((∃ r', Fault.refused r = .refused r') ↔ Barred settings programs project output s.tree) ∧
      ∀ file program, ¬Admitted settings programs project output s.tree file program :=
    fun hbar r => ⟨⟨fun _ => hbar, fun _ => ⟨r, rfl⟩⟩, fun _ _ hready => hready.not_barred hbar⟩
  rw [release.eq_def]
  cases hf : settings .projectFile with
  | text file =>
    simp only
    split
    · next hfile =>
      have hbar : Barred settings programs project output s.tree :=
        ⟨file, hf, .inl (by simpa using hfile)⟩
      exact .inl ⟨rfl, _, rfl, hrefused hbar _⟩
    · next hfile =>
      have hthere : s.tree.hasFile (project ++ Path.ofText file) = true := by simpa using hfile
      split
      · next hover => exact .inl ⟨rfl, _, rfl, hrefused ⟨file, hf, .inr (.inl hover)⟩ _⟩
      · next hover =>
        cases he : findEngine programs (engineOf settings) with
        | error e =>
          refine .inl ⟨rfl, e, rfl, ⟨fun hr => ⟨file, hf, .inr (.inr ?_)⟩, ?_⟩, ?_⟩
          · obtain ⟨r, rfl⟩ := hr
            exact ⟨r, he⟩
          · rintro ⟨file', hf', hno | hover' | ⟨r, hr⟩⟩
            · obtain rfl := Json.text.inj (hf.symm.trans hf')
              cases hthere.symm.trans hno
            · exact absurd hover' hover
            · exact ⟨r, Except.error.inj (he.symm.trans hr)⟩
          · exact fun _ _ hready => by cases he.symm.trans hready.engine
        | ok program =>
          exact .inr ⟨file, program, ⟨hf, hthere, Bool.eq_false_iff.mpr hover, he⟩, rfl⟩
  | _ =>
    refine .inl ⟨rfl, .misfit .kind, rfl, ⟨nofun, ?_⟩, ?_⟩
    · rintro ⟨file, hf', -⟩
      cases hf.symm.trans hf'
    · exact fun _ _ hready => by cases hf.symm.trans hready.named

/-- What a release may change: the output, and what the name of the project file stands for in
it. -/
def Touched (settings : Settings.Values) (t : FileTree) (output : Path) (l : Location) : Prop :=
  output.parts <+: l ∨
    ∃ file, settings .projectFile = .text file ∧ l = t.site (output ++ Path.ofText file)

theorem release_spares (h : s.tree.WellFormed) (hp : project.Resolved) (ho : output.Resolved)
    (hengine : programs.WorksIn output own) (settings : Settings.Values) (v : Variant)
    (disablePlugins : Bool) (time : Int) :
    s.tree.Spares (release settings programs v project (.ok output) disablePlugins time s).state.tree
      (Touched settings s.tree output) := by
  rcases release_cases settings programs v project output disablePlugins time s with
    ⟨hs, -⟩ | ⟨file, program, ⟨hf, -, hover, -⟩, hrun⟩
  · rw [hs]
    exact .refl _ _
  · have hapart : ¬output.parts <+: project.parts :=
      (overlaps_eq_false_iff hp ho).mp hover
    have hcopy : s.tree.Spares _ (Touched settings s.tree output) :=
      (copyProject_spares h ho hapart [settings v.leftOut]).mono fun l hl => .inl hl
    rw [hrun]
    -- a copy that fails has removed the earlier output at most
    rcases releaseWith_cases file (settings v.leftOut) program programs v project output
      disablePlugins time s with ⟨e, hc, -⟩ | ⟨s', hc, hend⟩
    · rwa [hc] at hcopy
    · rw [hc] at hcopy
      have hanchor : (output ++ Path.ofText file).anchor ≠ .here := anchor_append ho.anchor
      have hedit := hcopy.trans ((editCopy_spares hanchor v disablePlugins time s').mono
        fun l hl => .inr ⟨file, hf, hl.trans (site_anchored _ _ hanchor)⟩)
      rcases hend with ⟨htree, -⟩ | ⟨-, hrun'⟩
      · rwa [htree]
      · rw [hrun', runImport_tree]
        exact hedit.trans ((hengine.outside program _).mono fun l hl => .inl hl)

theorem release_ok (h : s.tree.WellFormed) (hp : project.Resolved) (ho : output.Resolved)
    (hengine : programs.WorksIn output own)
    (hr : (release settings programs v project (.ok output) disablePlugins time s).result =
      .ok out) :
    ∃ name, leftOutName (settings v.leftOut) = .ok name ∧ ∀ rel, ¬own rel →
      ((release settings programs v project (.ok output) disablePlugins time s).state.tree.FileAt
        (output.parts ++ rel) ↔
      Released project.parts output.parts name rel ∧ s.tree.FileAt (project.parts ++ rel)) := by
  rcases release_cases settings programs v project output disablePlugins time s with
    ⟨-, e, he, -⟩ | ⟨file, program, ⟨hf, -, hover, -⟩, hrun⟩
  · rw [hr] at he
    cases he
  · have hapart : ¬output.parts <+: project.parts :=
      (overlaps_eq_false_iff hp ho).mp hover
    rw [hrun] at hr ⊢
    rcases releaseWith_cases file (settings v.leftOut) program programs v project output
      disablePlugins time s with ⟨e, -, he⟩ | ⟨s', hc, ⟨-, e, -, he⟩ | ⟨-, hrun'⟩⟩
    · rw [hr] at he
      cases he
    · rw [hr] at he
      cases he
    · obtain ⟨names, hnames, hfiles⟩ := copyProject_ok h ho hapart hc
      obtain ⟨name, hname, rfl⟩ := leftOutNames_singleton hnames
      refine ⟨name, hname, fun rel hown => ?_⟩
      rw [hrun', runImport_tree, hengine.inside program _ rel hown, editCopy_fileAt, released_iff,
        FileAt, FileAt]
      simp only [hfiles, exists_and_left]

/-! ### Exports -/

theorem exportWorkbook_cases (settings : Settings.Values) (programs : Programs) (project : Path)
    (output : Except Fault Path) (disablePlugins : Bool) (time : Int) (s : State) :
    let run := exportWorkbook settings programs project output disablePlugins time s
    (run.state = s ∧ ∃ e, run.result = .error e) ∨
    ∃ plan, Build.Plan.ofValues project settings false = .ok plan ∧
      let built := (Build.buildAll plan s.tree false none time).tree
      (run.state.tree = built ∧ run.state.commands = s.commands ∧ ∃ e, run.result = .error e) ∨
      ∃ s', s'.tree = built ∧ s'.commands = s.commands ∧
        run = release settings programs workbook project output disablePlugins time s' := by
  rw [exportWorkbook.eq_def]
  cases hplan : Build.Plan.ofValues project settings false with
  | error e => exact .inl ⟨rfl, _, rfl⟩
  | ok plan =>
    refine .inr ⟨plan, rfl, ?_⟩
    simp only
    split
    · exact .inl ⟨rfl, rfl, _, rfl⟩
    · split
      · exact .inr ⟨⟨_, _, s.commands⟩, rfl, rfl, rfl⟩
      · exact .inl ⟨rfl, rfl, _, rfl⟩

def Rebuilt (settings : Settings.Values) (t : FileTree) (project : Path) (l : Location) : Prop :=
  ∃ plan, Build.Plan.ofValues project settings false = .ok plan ∧ Build.InPractices plan t l

theorem exportWorkbook_spares (h : s.tree.WellFormed) (hp : project.Resolved)
    (ho : output.Resolved) (hengine : programs.WorksIn output own) (settings : Settings.Values)
    (disablePlugins : Bool) (time : Int) :
    s.tree.Spares
      (exportWorkbook settings programs project (.ok output) disablePlugins time s).state.tree
      fun l => Touched settings s.tree output l ∨ Rebuilt settings s.tree project l := by
  rcases exportWorkbook_cases settings programs project (.ok output) disablePlugins time s with
    ⟨hs, -⟩ | ⟨plan, hplan, hrun⟩
  · rw [hs]
    exact .refl _ _
  · have hx := Build.buildAll_confined h plan false none time
    have hbuilt : s.tree.Spares _ _ := hx.spares.mono fun l hl =>
      Or.inr (a := Touched settings s.tree output l) (⟨plan, hplan, hl⟩ : Rebuilt settings _ project l)
    rcases hrun with ⟨htree, -, -⟩ | ⟨s', hs', -, hrun⟩
    · rw [htree]
      exact hbuilt
    · rw [hrun]
      rw [← hs'] at hx hbuilt
      have hrelease := release_spares hx.wellFormed hp ho hengine settings workbook disablePlugins
        time
      refine hbuilt.trans (hrelease.mono fun l hl => .inl (hl.imp id ?_))
      rintro ⟨file, hf, rfl⟩
      exact ⟨file, hf, site_congr hx.place _⟩

theorem exportWorkbook_ok (h : s.tree.WellFormed) (hp : project.Resolved) (ho : output.Resolved)
    (hengine : programs.WorksIn output own)
    (hr : (exportWorkbook settings programs project (.ok output) disablePlugins time s).result =
      .ok out) :
    ∃ plan name, Build.Plan.ofValues project settings false = .ok plan ∧
      leftOutName (settings .solutionsDirectory) = .ok name ∧ ∀ rel, ¬own rel →
      ((exportWorkbook settings programs project (.ok output) disablePlugins time s).state.tree.FileAt
        (output.parts ++ rel) ↔
      Released project.parts output.parts name rel ∧
        (Build.buildAll plan s.tree false none time).tree.FileAt (project.parts ++ rel)) := by
  rcases exportWorkbook_cases settings programs project (.ok output) disablePlugins time s with
    ⟨-, e, he⟩ | ⟨plan, hplan, ⟨-, -, e, he⟩ | ⟨s', hs', -, hrun⟩⟩
  · rw [hr] at he
    cases he
  · rw [hr] at he
    cases he
  · have hx := Build.buildAll_confined h plan false none time
    rw [← hs'] at hx
    rw [hrun] at hr ⊢
    obtain ⟨name, hname, hfiles⟩ := release_ok hx.wellFormed hp ho hengine hr
    exact ⟨plan, name, hplan, hname, hs' ▸ hfiles⟩

theorem roots_of_ofValues {plan : Build.Plan} {solutions practices : Text}
    (hs : settings .solutionsDirectory = .text solutions)
    (hps : settings .practicesDirectory = .text practices)
    (h : Build.Plan.ofValues project settings false = .ok plan) :
    plan.roots = Roots.ofNames project solutions practices (settings .resourceScheme).shown := by
  rw [Build.Plan.ofValues, hs, hps] at h
  simp only [Settings.textOf, bind, Except.bind, pure, Except.pure] at h
  split at h
  · cases h
  · split at h
    · cases h
    · split at h
      · cases h
      · split at h
        · cases h
        · rw [← Except.ok.inj h]

def nestedTree : FileTree where
  entries := [
    (["w"], .directory),
    (["w", "project.godot"], .file [] 5),
    (["w", "c"], .directory),
    (["w", "c", "s"], .directory),
    (["w", "c", "s", "a.gd"], .file [] 5)]

def nestedSettings : Settings.Values :=
  Settings.Values.set (Settings.Values.set Settings.Key.default .solutionsDirectory (.text "c/s"))
    .practicesDirectory (.text "p")

def nestedProject : Path := Path.ofText "/w"

def outerPlace : Path := Path.ofText "/o"

def cacheName : Text := ".godot"

def cacheOf (command : List Text) : Location :=
  (Path.ofText (command.getLast?.getD [])).parts ++ [cacheName]

def engine : Programs where
  find name := some name
  run command t :=
    ⟨(t.put (cacheOf command) .directory).put (cacheOf command ++ [cacheName]) (.file [] 7),
      .ok (0, [])⟩

def Cached (rel : Location) : Prop := rel.head? = some cacheName

theorem cacheOf_outerPlace (program : Text) :
    cacheOf (importCommand program outerPlace) = outerPlace.parts ++ [cacheName] := by
  have hplace : Path.ofText outerPlace.text = outerPlace := by decide
  rw [cacheOf, importCommand]
  simp only [List.getLast?_cons_cons, List.getLast?_singleton, Option.getD_some, hplace]

theorem engine_get? (program : Text) (t : FileTree)
    (hl : ¬outerPlace.parts ++ [cacheName] <+: l) :
    (engine.run (importCommand program outerPlace) t).tree.get? l = t.get? l := by
  have hself : l ≠ outerPlace.parts ++ [cacheName] := fun he => hl (he ▸ List.prefix_refl _)
  have hfile : l ≠ outerPlace.parts ++ [cacheName] ++ [cacheName] :=
    fun he => hl (he ▸ List.prefix_append _ _)
  simp only [engine, cacheOf_outerPlace]
  rw [get?_put _ _ (by simp), if_neg hfile, get?_put _ _ (by simp), if_neg hself]

theorem engine_worksIn : engine.WorksIn outerPlace Cached where
  outside program t l c τ hl := by
    rw [engine_get? program t fun hp => hl ((List.prefix_append _ _).trans hp)]
  inside program t rel hrel := by
    have hout : ¬outerPlace.parts ++ [cacheName] <+: outerPlace.parts ++ rel := fun hp => by
      obtain ⟨rest, rfl⟩ := (List.prefix_append_right_inj _).mp hp
      exact hrel rfl
    rw [FileAt, FileAt, engine_get? program t hout]

def nestedWorkbook : Run Path :=
  exportWorkbook nestedSettings engine nestedProject (.ok outerPlace) false 6 ⟨nestedTree, [], []⟩

theorem nestedTree_wellFormed : nestedTree.WellFormed := by decide +kernel

theorem nestedProject_resolved : nestedProject.Resolved := ⟨by decide, by decide⟩

theorem outerPlace_resolved : outerPlace.Resolved := ⟨by decide, by decide⟩

end Coursework.Export
