import Coursework.Proofs.Build.Incremental
import Coursework.Proofs.Build.PracticeScene
import Coursework.Proofs.FileTree.Places
import Coursework.Proofs.Text.Trimming
import Coursework.Proofs.Text.Utf8

namespace Coursework

structure Roots.Plain (r : Roots) : Prop where
  solutions_ne : r.solutionsReference ≠ []
  practices_ne : r.practicesReference ≠ []
  solutions : r.solutionsReference.any Scene.isMark = false
  practices : r.practicesReference.any Scene.isMark = false

theorem Roots.Plain.tame {r : Roots} (h : r.Plain) : Scene.Tame r.redirect := by
  apply Scene.tame_replace h.solutions_ne h.practices_ne
  · exact fun c hc => Bool.eq_false_iff.mpr (List.any_eq_false.mp h.solutions c hc)
  · exact fun c hc => Bool.eq_false_iff.mpr (List.any_eq_false.mp h.practices c hc)

namespace Conversion

variable {c : Conversion} {ls out : List Text} {body p : Text}

structure Untouched (c : Conversion) (s : Text) : Prop where
  lines : ∀ l ∈ Text.lines s, c.marks.split l = none
  ends : Text.trim s ++ ['\n'] = s

theorem practiceLines_of_split (h : ∀ l ∈ ls, c.marks.split l = none)
    (hp : c.marks.practiceLines ls = some out) : out = ls := by
  induction ls generalizing out with
  | nil => exact (Option.some.inj hp).symm
  | cons l ls ih =>
    rw [List.forall_mem_cons] at h
    simp only [Directive.Marks.practiceLines, bind, Option.bind_eq_some_iff,
      Option.some.injEq] at hp
    obtain ⟨d, hd, rest, hrest, rfl⟩ := hp
    obtain ⟨n, -, rfl⟩ := Option.map_eq_some_iff.mp hd
    have hkeep : c.marks.directiveAt n l = .keep := by rw [Directive.Marks.directiveAt, h.1]
    rw [hkeep, ih h.2 hrest]
    rfl

theorem practiceText_of_untouched (hb : Text.FeedsOnly body) (h : c.Untouched (body ++ ['\n']))
    (hp : c.practiceText (body ++ ['\n']) = some p) : p = c.roots.redirect (body ++ ['\n']) := by
  obtain ⟨out, hout, rfl⟩ := Option.map_eq_some_iff.mp hp
  have hlines : Text.lines (body ++ ['\n']) = Text.splitOn '\n' body := by
    rw [Text.lines_append hb, Text.lines, List.append_nil]
  have htrim : Text.trim (body ++ ['\n']) = body := List.append_cancel_right h.ends
  have hbody : Text.trim body = body := by
    rw [← htrim, Text.trim_trim]
  rw [practiceLines_of_split h.lines hout, assemble, hlines, Text.join_splitOn, hbody]

end Conversion

namespace Build

variable {b : Plan} {t u v w x : FileTree} {script : Option SceneScript} {source target : Path}
  {time : Int} {l : Location}

theorem Extends.readText (hx : t.Extends x l) {s : Text} (h : t.readText source = .ok s) :
    x.readText source = .ok s := by
  have hbytes : ∀ c, t.readBytes source = .ok c → x.readBytes source = .ok c := by
    intro c hc
    obtain ⟨-, l, τ, hl, hg⟩ := FileTree.readBytes_iff.mp hc
    rw [FileTree.readBytes] at hc ⊢
    split at hc
    · cases hc
    · next hn => simp only [hn, if_false, hx.locate hl, hx.get?_of_eq_some hg, Bool.false_eq_true]
  rw [FileTree.readText] at h ⊢
  cases hr : t.readBytes source with
  | error e => simp [hr] at h
  | ok c =>
    rw [hbytes c hr]
    rwa [hr] at h

theorem produce_diff (h : produce b t script source target time = .ok (.ok (v, .diff))) :
    ∃ s, script = some s ∧ applyScript t b.group s source target time = .ok v := by
  unfold produce at h
  cases script with
  | none =>
    cases hc : t.copyFile source target time with
    | error e => simp [hc] at h
    | ok u => simp [hc] at h
  | some s =>
    by_cases he : b.editsScenes source.extension = true
    · simp only [he, if_true] at h
      cases ha : applyScript t b.group s source target time with
      | error e =>
        simp only [ha] at h
        split at h
        · next hv => cases hv
        · cases h
        · cases h
      | ok u =>
        simp only [ha, Except.ok.injEq, Prod.mk.injEq, and_true] at h
        exact ⟨s, rfl, h ▸ ha⟩
    · cases hc : t.copyFile source target time with
      | error e => simp [he, hc] at h
      | ok u => simp [he, hc] at h

theorem practice_of_produce {s : SceneScript} {text : Text} {scene : Scene}
    (htext : t.readText source = .ok text) (hread : Scene.read text = .ok scene)
    (h : produce b t (some s) source target time = .ok (.ok (v, .diff))) :
    ∃ edits practice written, Keyed.get? s.transforms source.stem = some edits ∧
      practiceScene b.group edits scene = .ok practice ∧ practice.text = .ok written ∧
      t.writeBytes target (Utf8.encode written) time = .ok v := by
  obtain ⟨_, hscript, happly⟩ := produce_diff h
  obtain rfl := Option.some.inj hscript
  obtain ⟨content, edits, c, hbytes, hedits, hc, hw⟩ := applyScript_eq_ok_iff.mp happly
  obtain ⟨raw, read, practice, written, hdecode, hscene, hpractice, hwritten, rfl⟩ :=
    sceneBytes_eq_some_iff.mp hc
  rw [FileTree.readText, hbytes] at htext
  simp only [hdecode, Except.ok.injEq] at htext
  rw [htext, hread] at hscene
  obtain rfl := Except.ok.inj hscene
  exact ⟨edits, practice, written, hedits, hpractice, hwritten, hw⟩

def Idle (edits : List Scene.Edit) (scene : Scene) : Prop :=
  ((Scene.Session.start scene).runAll edits).1.forest = scene.forest

theorem practiceScene_of_idle {group : Option Text} {edits : List Scene.Edit} {scene practice : Scene}
    (hi : Idle edits (withoutGroup group scene))
    (hprune : (withoutGroup group scene).pruneConnections = .ok (withoutGroup group scene))
    (h : practiceScene group edits scene = .ok practice) : practice = withoutGroup group scene := by
  rw [practiceScene] at h
  cases hrun : (Scene.Session.start (withoutGroup group scene)).runAll edits with
  | mk s e =>
    rw [Idle, hrun] at hi
    cases e with
    | some e => simp [hrun] at h
    | none =>
      have hsame : { withoutGroup group scene with forest := s.forest } =
          withoutGroup group scene := by rw [hi]
      simp only [hrun, hsame, hprune] at h
      exact (Except.ok.inj h).symm

theorem readText_written {s : Text} (hw : x.writeBytes target (Utf8.encode s) time = .ok v)
    (hs : Text.FeedsOnly s) : v.readText target = .ok s := by
  rw [FileTree.readText, FileTree.readBytes_written hw]
  simp only [Utf8.decode_encode, hs.unifyLineEnds]

theorem readText_converted {extension s : Text}
    (hw : x.writeBytes target (Utf8.encode s) time = .ok v) (hs : Text.FeedsOnly s)
    (hc : convert b v extension target time = .ok (.ok (w, [.process]))) :
    ∃ p, b.conversion.practiceText s = some p ∧
      (Text.FeedsOnly p → w.readText target = .ok p) := by
  rw [convert, readText_written hw hs] at hc
  split at hc
  · cases hp : b.conversion.practiceText s with
    | none => simp [hp] at hc
    | some p =>
      simp only [hp] at hc
      refine ⟨p, rfl, fun hp => ?_⟩
      cases hwrite : v.writeText target p time with
      | error e => simp [hwrite] at hc
      | ok u =>
        simp only [hwrite, Except.ok.injEq, Prod.mk.injEq, and_true] at hc
        rw [FileTree.writeText, (FileTree.writeBytes_written hw _ time).1] at hwrite
        exact readText_written (hc ▸ hwrite) hp
  · simp at hc

/-- If a build edits and converts a scene, with a script that changes nothing, then the practice is
a scene again: the same tree, without the group of the authors and with the references
redirected. -/
theorem practice_is_scene {forced : Bool} {script : SceneScript} {r : FileResult} {text : Text}
    {sections : List Scene.Section} {scene : Scene} (h : t.WellFormed)
    (hp : b.roots.practiceOf source = .ok target) (ht : target.Descends)
    (hr : buildFile b t (some script) forced source time = ⟨u, .ok r⟩)
    (hsteps : r.steps = [.diff, .process]) (htext : t.readText source = .ok text)
    (hclear : Scene.Clear text sections scene)
    (hidle : ∀ edits, Keyed.get? script.transforms source.stem = some edits →
      Idle edits (withoutGroup b.group scene))
    (hroots : b.roots.Plain) (hfixed : scene.Fixed b.roots.redirect 0)
    (huntouched : ∀ written, (withoutGroup b.group scene).text = .ok written →
      b.conversion.Untouched written) :
    ∃ practice, loadScene u target = .ok practice ∧ practice.root = some 0 ∧
      (∀ p, p ∈ practice.declared ↔ p ∈ scene.declared) ∧
      (scene.forest.mapNodes (Scene.Node.published b.group b.roots.redirect)).SameTree Eq 0
        practice.forest 0 := by
  obtain ⟨hprune, body, practice, hbody, hwritten, hread, htree⟩ :=
    hclear.published hroots.tame hfixed b.group
  rw [buildFile, hp] at hr
  simp only at hr
  split at hr
  · obtain ⟨-, hres⟩ := Done.mk.inj hr
    rw [← Except.ok.inj hres] at hsteps
    cases hsteps
  · -- of the ways to a result only the last one has both steps
    cases regenerates hr with
    | blocked hd he => cases hsteps
    | unproduced hd hp => cases hsteps
    | unconverted hd hp hc => simp at hsteps
    | @done x v _ step steps hd hprod hconv =>
      obtain ⟨rfl, rfl⟩ : step = .diff ∧ steps = [.process] := List.cons.inj hsteps
      have hx := (h.ensureDirectories ht.parent).1
      rw [hd] at hx
      obtain ⟨edits, edited, written, hedits, hpractice, htext', hw⟩ :=
        practice_of_produce (Extends.readText hx htext) hclear.read hprod
      obtain rfl := practiceScene_of_idle (hidle edits hedits) hprune hpractice
      obtain rfl := Except.ok.inj (hwritten.symm.trans htext')
      obtain ⟨p, hp, hresult⟩ := readText_converted hw hbody.concat hconv
      obtain rfl : p = b.roots.redirect (body ++ ['\n']) :=
        Conversion.practiceText_of_untouched hbody (huntouched _ hwritten) hp
      refine ⟨practice, ?_, htree⟩
      rw [loadScene, hresult (hroots.tame.feedsOnly hbody.concat)]
      simp only [hread]

theorem Done.eq_mk {α : Type} {d : Done α} {y : α} (h : d.result = y) : d = ⟨d.tree, y⟩ :=
  congrArg (Done.mk d.tree) h

def stage : List Scene.Section := [
  ⟨"gd_scene", [("format", "3")], []⟩,
  ⟨"ext_resource", [("path", Scene.quote "res://s/a.gd"), ("id", Scene.quote "1")], []⟩,
  ⟨"node", [("name", Scene.quote "A"), ("type", Scene.quote "Label"),
    ("groups", Scene.writeStrings ["solution_only", "b"])], [("icon", Scene.quote "res://s/a.png")]⟩,
  ⟨"node", [("name", Scene.quote "B"), ("parent", Scene.quote ".")], []⟩]

def stageScene : Scene :=
  match Scene.ofSections stage with
  | .ok s => s
  | .error _ => {}

def singleTree (text : Text) : FileTree where
  entries := [
    (["w"], .directory),
    (["w", "s"], .directory),
    (["w", "s", "a.tscn"], .file (Utf8.encode text) 5)]

def singleSource : Path := (sample "diff.py").source ["a.tscn"]

def singleTarget : Path := (sample "diff.py").target ["a.tscn"]

def idleScript : SceneScript := ⟨Path.ofText "/w/s/diff.py", 5, [("a", [])]⟩

def singleBuild (text : Text) : Done (Except Abort FileResult) :=
  buildFile (sample "diff.py") (singleTree text) (some idleScript) false singleSource 6

def stageBuild : Done (Except Abort FileResult) := singleBuild (Scene.sectionsText stage)

theorem stage_fixed : stageScene.Fixed (sample "diff.py").roots.redirect 0 := by
  have hn : stageScene.forest.Nested := by decide +kernel
  have hnodes : ∀ x < stageScene.forest.size,
      (sample "diff.py").roots.redirect (stageScene.forest.node x).name =
        (stageScene.forest.node x).name ∧
      (∀ p ∈ stageScene.forest.parentPath x, (sample "diff.py").roots.redirect p = p) ∧
      (∀ k ∈ Keyed.keys (stageScene.forest.node x).attributes,
        (sample "diff.py").roots.redirect k = k) ∧
      ∀ k ∈ Keyed.keys (stageScene.forest.node x).properties,
        (sample "diff.py").roots.redirect k = k := by decide +kernel
  have hothers : ∀ t ∈ stageScene.preamble ++ stageScene.trailing,
      (sample "diff.py").roots.redirect t.tag = t.tag ∧
      (∀ k ∈ Keyed.keys t.attributes, (sample "diff.py").roots.redirect k = k) ∧
      ∀ k ∈ Keyed.keys t.properties, (sample "diff.py").roots.redirect k = k := by decide +kernel
  have hall := fun x hx => hnodes x ((hn.reaches_iff (by decide)).mp hx)
  constructor
  · decide +kernel
  · exact fun x hx => (hall x hx).1
  · exact fun x hx => (hall x hx).2.1
  · exact fun x hx => (hall x hx).2.2.1
  · exact fun x hx => (hall x hx).2.2.2
  · exact fun t ht => ⟨(hothers t ht).1, (hothers t ht).2.1, (hothers t ht).2.2⟩

theorem practice_is_scene_stage : (singleTree (Scene.sectionsText stage)).WellFormed ∧
    stageBuild.result = .ok ⟨singleSource, singleTarget, [.diff, .process], []⟩ ∧
    ∃ practice, loadScene stageBuild.tree singleTarget = .ok practice ∧
      practice.root = some 0 ∧ (∀ p, p ∈ practice.declared ↔ p ∈ stageScene.declared) ∧
      (stageScene.forest.mapNodes (Scene.Node.published (some "solution_only".toList)
        (sample "diff.py").roots.redirect)).SameTree Eq 0 practice.forest 0 := by
  have hwf : (singleTree (Scene.sectionsText stage)).WellFormed := by decide +kernel
  have hb := sample_separate "diff.py"
  have hsplit : Scene.Section.readAll (Scene.sectionsText stage) = .ok stage :=
    Scene.Section.readAll_sectionsText (by decide +kernel)
  have hread : Scene.read (Scene.sectionsText stage) = .ok stageScene := by
    rw [Scene.read, hsplit]
    rfl
  have hclear : Scene.Clear (Scene.sectionsText stage) stage stageScene :=
    ⟨hsplit, hread, by decide +kernel, by decide +kernel⟩
  have hresult : stageBuild.result = .ok ⟨singleSource, singleTarget, [.diff, .process], []⟩ := by
    decide +kernel
  have hrun : buildFile (sample "diff.py") (singleTree (Scene.sectionsText stage)) (some idleScript)
      false singleSource 6 =
      ⟨stageBuild.tree, .ok ⟨singleSource, singleTarget, [.diff, .process], []⟩⟩ :=
    Done.eq_mk hresult
  have hp : (sample "diff.py").roots.practiceOf singleSource = .ok singleTarget :=
    practiceOf_source _ _
  have htext : (singleTree (Scene.sectionsText stage)).readText singleSource =
      .ok (Scene.sectionsText stage) := by decide +kernel
  have hroots : (sample "diff.py").roots.Plain := by
    constructor <;> decide +kernel
  refine ⟨hwf, hresult, practice_is_scene hwf hp (hb.target (by decide)) hrun rfl htext
    hclear (fun edits he => ?_) hroots stage_fixed fun written hw => ?_⟩
  · obtain rfl : [] = edits := Option.some.inj he
    rfl
  · have hlines : ∀ written ∈ (withoutGroup (sample "diff.py").group stageScene).text.toOption,
        (∀ l ∈ Text.lines written, (sample "diff.py").conversion.marks.split l = none) ∧
        Text.trim written ++ ['\n'] = written := by decide +kernel
    obtain ⟨hsplits, hends⟩ := hlines written (toOption_eq_some_iff.mpr hw)
    exact ⟨hsplits, hends⟩

def scoreText : Text := "[gd_scene]\n\n[node name=\"A\" type=\"Label\"]\ntext = \"Score #1\"\n"

theorem string_converted :
    (loadScene (singleTree scoreText) singleSource).toOption.isSome = true ∧
    (singleBuild scoreText).result = .ok ⟨singleSource, singleTarget, [.diff, .process], []⟩ ∧
    (loadScene (singleBuild scoreText).tree singleTarget).toOption = none := by
  refine ⟨?_, ?_, ?_⟩ <;> decide +kernel

end Build

end Coursework
