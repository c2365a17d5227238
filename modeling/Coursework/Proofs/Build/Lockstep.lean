import Coursework.Proofs.FileTree.Alteration
import Coursework.Proofs.Build.Pattern

/-!
Builds of two trees that are alike as far as an exercise is concerned: they report the same and keep
the trees alike.
-/

namespace Coursework.Build

open FileTree (Paired landing_under)

variable {b : Plan} {t u v : FileTree} {script : Option SceneScript} {source target d : Path}
  {forced : Bool} {pattern : Option Text} {time : Int} {R : List Text → Prop} {rel : List Text}
  {E F : Location → Prop} {Q : FileTree → FileTree → Prop}

theorem copyFile_paired (hs : u.same source target = t.same source target)
    (hr : u.readBytes source = t.readBytes source)
    (hw : ∀ c, Paired Q (t.writeBytes target c time) (u.writeBytes target c time)) :
    Paired Q (t.copyFile source target time) (u.copyFile source target time) := by
  rw [FileTree.copyFile, FileTree.copyFile, hs, hr]
  split
  · exact .error _
  · cases t.readBytes source with
    | error e => exact .error e
    | ok content => exact hw content

theorem saveScene_paired {scene : Scene}
    (hw : ∀ c, Paired Q (t.writeBytes target c time) (u.writeBytes target c time)) :
    Paired Q (saveScene t scene target time) (saveScene u scene target time) := by
  rw [saveScene, saveScene]
  cases scene.text with
  | error d => exact .error _
  | ok s =>
    have hs := hw (Utf8.encode s)
    simp only [FileTree.writeText]
    generalize t.writeBytes target (Utf8.encode s) time = x at hs
    generalize u.writeBytes target (Utf8.encode s) time = y at hs
    cases hs with
    | error e => exact .error _
    | ok h => exact .ok h

theorem applyScript_paired {s : SceneScript} {group : Option Text}
    (hr : u.readBytes source = t.readBytes source)
    (hw : ∀ c, Paired Q (t.writeBytes target c time) (u.writeBytes target c time)) :
    Paired Q (applyScript t group s source target time)
      (applyScript u group s source target time) := by
  have hload : loadScene u source = loadScene t source := by
    rw [loadScene, loadScene, FileTree.readText, FileTree.readText, hr]
  rw [applyScript, applyScript, hload]
  cases Keyed.get? s.transforms source.stem with
  | none => exact .error _
  | some edits =>
    cases loadScene t source with
    | error e => exact .error e
    | ok scene =>
      simp only [bind, Except.bind]
      cases practiceScene group edits scene with
      | error r => cases r <;> exact .error _
      | ok practice => exact saveScene_paired hw

def Stepped {α : Type} (Q : FileTree → FileTree → Prop) (x y : FileTree × α) : Prop :=
  Q x.1 y.1 ∧ y.2 = x.2

theorem produce_paired (hs : u.same source target = t.same source target)
    (hr : u.readBytes source = t.readBytes source)
    (hw : ∀ c, Paired Q (t.writeBytes target c time) (u.writeBytes target c time)) :
    Paired (Paired (Stepped Q)) (produce b t script source target time)
      (produce b u script source target time) := by
  have hcopy := copyFile_paired hs hr hw
  have hout : Paired (Paired (Stepped Q)) (produce b t none source target time)
      (produce b u none source target time) := by
    simp only [produce]
    generalize t.copyFile source target time = x at hcopy
    generalize u.copyFile source target time = y at hcopy
    cases hcopy with
    | error e => exact .ok (.error _)
    | ok h => exact .ok (.ok ⟨h, rfl⟩)
  cases script with
  | none => exact hout
  | some s =>
    by_cases he : b.editsScenes source.extension = true
    · have happly : Paired Q (applyScript t b.group s source target time)
          (applyScript u b.group s source target time) := applyScript_paired hr hw
      simp only [produce, he, if_true]
      generalize applyScript t b.group s source target time = x at happly
      generalize applyScript u b.group s source target time = y at happly
      cases happly with
      | ok h => exact .ok (.ok ⟨h, rfl⟩)
      | error e =>
        cases e with
        | defect d => cases d <;> first | exact .error _ | exact .ok (.error _)
        | _ => exact .ok (.error _)
    · simp only [produce, he, Bool.false_eq_true, if_false]
      exact hout

theorem convert_paired {extension : Text} (h : Q t u)
    (hr : u.readBytes target = t.readBytes target)
    (hw : ∀ c, Paired Q (t.writeBytes target c time) (u.writeBytes target c time)) :
    Paired (Paired (Stepped Q)) (convert b t extension target time)
      (convert b u extension target time) := by
  have hread : u.readText target = t.readText target := by
    rw [FileTree.readText, FileTree.readText, hr]
  rw [convert, convert, hread]
  split
  · cases t.readText target with
    | error e => exact .ok (.error _)
    | ok s =>
      simp only
      cases b.conversion.practiceText s with
      | none => exact .error _
      | some x =>
        have hs := hw (Utf8.encode x)
        simp only [FileTree.writeText]
        generalize t.writeBytes target (Utf8.encode x) time = x at hs
        generalize u.writeBytes target (Utf8.encode _) time = y at hs
        cases hs with
        | error e => exact .ok (.error _)
        | ok h => exact .ok (.ok ⟨h, rfl⟩)
  · exact .ok (.ok ⟨h, rfl⟩)

structure Done.Alike {α : Type} (x y : Done α) (E F : Location → Prop) : Prop where
  result : y.result = x.result
  tree : x.tree.Alike y.tree E F

structure Shared (b : Plan) (t : FileTree) (E F : Location → Prop) (rel : List Text) : Prop where
  descends : ['.', '.'] ∉ rel
  source : E (t.landing (b.source rel))
  target : E (t.landing (b.target rel))
  way : ∀ m, m <+: t.landing (b.target rel).parent → E m ∨ F m
  null : (b.target rel).parent.hasNull = true → E (t.landing (b.target rel).parent)

theorem Shared.congr (h : Shared b t E F rel) (hp : u.place = t.place) : Shared b u E F rel := by
  have hland : ∀ p, u.landing p = t.landing p := FileTree.landing_congr hp
  constructor
  · exact h.descends
  · rw [hland]
    exact h.source
  · rw [hland]
    exact h.target
  · rw [hland]
    exact h.way
  · rw [hland]
    exact h.null

theorem get?_parent (h : t.WellFormed) {p : Path} {content : Utf8.Bytes} {τ : Int}
    (hg : t.get? (t.landing p) = some (.file content τ)) :
    t.get? (t.landing p.parent) = some .directory := by
  rw [FileTree.landing_parent (h.parts_ne_nil (by simp [hg]))]
  exact h.above_dropLast hg

theorem produce_alike (h : t.Alike u E F) (hb : Plan.Separate b.roots) (hs : Shared b t E F rel)
    (ht : t.get? (t.landing (b.target rel).parent) = some .directory)
    (hu : u.get? (u.landing (b.target rel).parent) = some .directory)
    {content : Utf8.Bytes} {τ : Int}
    (hg : t.get? (t.landing (b.source rel)) = some (.file content τ))
    (script : Option SceneScript) (time : Int) :
    Paired (Paired (Stepped fun t' u' => t'.Alike u' E F))
      (produce b t script (b.source rel) (b.target rel) time)
      (produce b u script (b.source rel) (b.target rel) time) := by
  apply produce_paired
  · rw [hb.not_same h.left hs.descends hs.descends, hb.not_same h.right hs.descends hs.descends]
  · exact h.readBytes (hb.source hs.descends) hs.source hg
  · exact fun c => h.writeBytes (hb.target hs.descends) hs.target ht hu c time

theorem convert_alike (h : t.Alike u E F) (hb : Plan.Separate b.roots) (hs : Shared b t E F rel)
    {content : Utf8.Bytes} {τ : Int}
    (hg : t.get? (t.landing (b.target rel)) = some (.file content τ)) (extension : Text)
    (time : Int) :
    Paired (Paired (Stepped fun t' u' => t'.Alike u' E F))
      (convert b t extension (b.target rel) time) (convert b u extension (b.target rel) time) := by
  have hdesc := hb.target hs.descends
  have hg' : u.get? (u.landing (b.target rel)) = some (.file content τ) := by
    rw [h.landing, h.entry _ hs.target, hg]
  apply convert_paired h
  · exact h.readBytes hdesc hs.target hg
  · have hparent := get?_parent h.left hg
    have hparent' := get?_parent h.right hg'
    exact fun c => h.writeBytes hdesc hs.target hparent hparent' c _

def settle {α : Type} (t : FileTree) (failed : Text → FileResult)
    (rest : FileTree → α → Done (Except Abort FileResult)) :
    Except Abort (Except Text (FileTree × α)) → Done (Except Abort FileResult)
  | .error a => ⟨t, .error a⟩
  | .ok (.error m) => ⟨t, .ok (failed m)⟩
  | .ok (.ok (v, x)) => rest v x

theorem regenerate_eq (h : t.ensureDirectories target.parent = (u, none)) :
    regenerate b t script source target time =
      settle u (fun m => ⟨source, target, [.fail], m⟩)
        (fun v step => settle v (fun m => ⟨source, target, [step, .fail], m⟩)
          (fun w steps => ⟨w, .ok ⟨source, target, step :: steps, []⟩⟩)
          (convert b v source.extension target time))
        (produce b u script source target time) := by
  rw [regenerate, h]
  simp only
  cases produce b u script source target time with
  | error a => rfl
  | ok x =>
    cases x with
    | error m => rfl
    | ok x =>
      obtain ⟨v, step⟩ := x
      simp only [settle]
      cases convert b v source.extension target time with
      | error a => rfl
      | ok x => cases x <;> rfl

theorem settle_alike {α : Type} {failed : Text → FileResult}
    {rest rest' : FileTree → α → Done (Except Abort FileResult)}
    {x y : Except Abort (Except Text (FileTree × α))} (h : t.Alike u E F)
    (hxy : Paired (Paired (Stepped fun t' u' => t'.Alike u' E F)) x y)
    (hrest : ∀ v v' a, x = .ok (.ok (v, a)) → v.Alike v' E F →
      (rest v a).Alike (rest' v' a) E F) :
    (settle t failed rest x).Alike (settle u failed rest' y) E F := by
  cases hxy with
  | error a => exact ⟨rfl, h⟩
  | ok hxy =>
    cases hxy with
    | error m => exact ⟨rfl, h⟩
    | @ok x y hxy =>
      obtain ⟨v, a⟩ := x
      obtain ⟨v', a'⟩ := y
      obtain ⟨hv, rfl⟩ : v.Alike v' E F ∧ a' = a := hxy
      exact hrest v v' a' rfl hv

theorem regenerate_alike (h : t.Alike u E F) (hb : Plan.Separate b.roots)
    (hs : Shared b t E F rel) {content : Utf8.Bytes} {τ : Int}
    (hg : t.get? (t.landing (b.source rel)) = some (.file content τ)) :
    (regenerate b t script (b.source rel) (b.target rel) time).Alike
      (regenerate b u script (b.source rel) (b.target rel) time) E F := by
  have htarget := hb.target hs.descends
  obtain ⟨hfault, halike⟩ := h.ensureDirectories htarget.parent hs.way hs.null
  obtain ⟨hx, hd⟩ := h.left.ensureDirectories htarget.parent
  obtain ⟨hy, hd'⟩ := h.right.ensureDirectories htarget.parent
  cases ht : t.ensureDirectories (b.target rel).parent with
  | mk t' o =>
    cases hu : u.ensureDirectories (b.target rel).parent with
    | mk u' o' =>
      rw [ht] at hfault halike hx hd
      rw [hu] at hfault halike hy hd'
      obtain rfl : o' = o := hfault
      cases o' with
      | some e =>
        rw [regenerate, regenerate, ht, hu]
        cases e <;> exact ⟨rfl, halike⟩
      | none =>
        have hs' := hs.congr hx.place
        have hdir : t'.get? (t'.landing (b.target rel).parent) = some .directory := by
          rw [FileTree.landing_congr hx.place]
          exact hd rfl
        have hdir' : u'.get? (u'.landing (b.target rel).parent) = some .directory := by
          rw [FileTree.landing_congr hy.place]
          exact hd' rfl
        have hg' : t'.get? (t'.landing (b.source rel)) = some (.file content τ) := by
          rw [FileTree.landing_congr hx.place]
          exact hx.get?_of_eq_some hg
        rw [regenerate_eq ht, regenerate_eq hu]
        apply settle_alike halike (produce_alike halike hb hs' hdir hdir' hg' script time)
        intro v v' step hv hvs
        -- the conversion reads what was just written
        obtain ⟨-, c, -, -, hw, -⟩ := produce_ok hv
        obtain ⟨-, σ, hfile⟩ := (hvs.left.readBytes_eq_ok_iff htarget).mp
          (FileTree.readBytes_written hw)
        have hplace := (halike.left.writeBytes_confined hw).place
        apply settle_alike hvs (convert_alike hvs hb (hs'.congr hplace) hfile _ time)
        exact fun w w' steps _ hws => ⟨rfl, hws⟩

theorem buildFile_alike (h : t.Alike u E F) (hb : Plan.Separate b.roots)
    (hs : Shared b t E F rel) {content : Utf8.Bytes} {τ : Int}
    (hg : t.get? (t.landing (b.source rel)) = some (.file content τ))
    (script : Option SceneScript) (forced : Bool) (time : Int) :
    (buildFile b t script forced (b.source rel) time).Alike
      (buildFile b u script forced (b.source rel) time) E F := by
  have hsource := h.entry_eq (hb.source hs.descends) hs.source
  have htarget := h.entry_eq (hb.target hs.descends) hs.target
  have hup : upToDate (u.timeOf (b.source rel)) (u.timeOf (b.target rel))
      ((script.map SceneScript.time).getD 0) (u.hasPath (b.target rel)) forced =
      upToDate (t.timeOf (b.source rel)) (t.timeOf (b.target rel))
        ((script.map SceneScript.time).getD 0) (t.hasPath (b.target rel)) forced := by
    simp only [FileTree.timeOf, FileTree.hasPath, hsource, htarget]
  rw [buildFile, buildFile, practiceOf_source]
  simp only [hup]
  split
  · exact ⟨rfl, h⟩
  · exact regenerate_alike h hb hs hg

structure Run.Alike {α : Type} (x y : Run α) (E F : Location → Prop) : Prop where
  result : y.result = x.result
  abort : y.abort = x.abort
  tree : x.tree.Alike y.tree E F

def Sharing (b : Plan) (t : FileTree) (E F : Location → Prop) (p : Path) : Prop :=
  ∃ rel, p = b.source rel ∧ Shared b t E F rel ∧
    ∃ c τ, t.get? (t.landing (b.source rel)) = some (.file c τ)

theorem Sharing.built (h : t.WellFormed) (hb : Plan.Separate b.roots) {p q : Path}
    (hp : InSolutions b p) (hs : Sharing b t E F q) :
    Sharing b (buildFile b t script forced p time).tree E F q := by
  obtain ⟨rel, rfl, hshared, c, τ, hg⟩ := hs
  obtain ⟨xs, hx, rfl, hpractice⟩ := hp.practiceOf
  have hc := buildFile_confined h b script forced (b.source xs) time
  have hland := FileTree.landing_congr hc.place
  refine ⟨rel, rfl, hshared.congr hc.place, c, τ, ?_⟩
  rw [hland, hc.spares]
  · exact hg
  · rintro ⟨x, hx', hl⟩
    obtain rfl := Except.ok.inj (hpractice.symm.trans hx')
    rw [h.site_eq_landing (hb.target hx)] at hl
    have hpre : t.landing (b.source rel) <+: t.landing (b.target xs) := hl ▸ List.prefix_refl _
    exact hb.apart t hpre

theorem buildFiles_alike {ps : List Path} (h : t.Alike u E F) (hb : Plan.Separate b.roots)
    (hps : ∀ p ∈ ps, Sharing b t E F p) :
    (buildFiles b script forced time t ps).Alike (buildFiles b script forced time u ps) E F := by
  -- both builds stop together, or go on in trees that are alike at the same places
  induction ps generalizing t u with
  | nil => exact ⟨rfl, rfl, h⟩
  | cons p ps ih =>
    rw [List.forall_mem_cons] at hps
    obtain ⟨rel, rfl, hs, c, τ, hg⟩ := hps.1
    have hfile := buildFile_alike h hb hs hg script forced time
    have hrest : ∀ q ∈ ps, Sharing b (buildFile b t script forced (b.source rel) time).tree E F q :=
      fun q hq => (hps.2 q hq).built h.left hb ⟨rel, hs.descends, rfl⟩
    rw [buildFiles, buildFiles]
    cases hx : buildFile b t script forced (b.source rel) time with
    | mk t' x =>
      cases hy : buildFile b u script forced (b.source rel) time with
      | mk u' y =>
        rw [hx, hy] at hfile
        rw [hx] at hrest
        obtain ⟨rfl, halike⟩ := hfile
        cases y with
        | error a => exact ⟨rfl, rfl, halike⟩
        | ok r =>
          simp only
          split
          · exact ⟨rfl, rfl, halike⟩
          · obtain ⟨hr, ha, ht⟩ := ih halike hrest
            exact ⟨congrArg (r :: ·) hr, ha, ht⟩

theorem buildDirectory_alike (h : t.Alike u E F) (hb : Plan.Separate b.roots)
    (hload : ∀ name, b.scriptName = some name → loadScript u d name = loadScript t d name)
    (hfiles : b.filesOf u d pattern = b.filesOf t d pattern)
    (hs : ∀ files, b.filesOf t d pattern = .ok files → ∀ p ∈ files, Sharing b t E F p) :
    (buildDirectory b t forced pattern time d).Alike (buildDirectory b u forced pattern time d)
      E F := by
  rw [buildDirectory, buildDirectory]
  cases hn : b.scriptName with
  | none => exact ⟨rfl, rfl, h⟩
  | some name =>
    simp only [buildWithScript, hload name hn, hfiles]
    cases loadScript t d name with
    | error e =>
      simp only
      cases b.roots.practiceOf d <;> exact ⟨rfl, rfl, h⟩
    | ok script =>
      simp only
      cases hf : b.filesOf t d pattern with
      | error e => exact ⟨rfl, rfl, h⟩
      | ok files =>
        obtain ⟨hr, ha, ht⟩ := buildFiles_alike h hb (hs files hf)
        exact ⟨congrArg (DirectoryResult.mk d) hr, ha, ht⟩

end Coursework.Build
