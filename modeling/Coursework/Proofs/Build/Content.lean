import Coursework.Proofs.FileTree.Writing
import Coursework.Build.Directory

namespace Coursework.Build

variable {b : Plan} {t u v w : FileTree} {script : Option SceneScript} {source target : Path}
  {time : Int} {content c d : Utf8.Bytes}

/-! ### The bytes of a practice -/

def sceneBytes (group : Option Text) (edits : List Scene.Edit) (content : Utf8.Bytes) :
    Option Utf8.Bytes := do
  let s ← (Utf8.decode content).toOption
  let scene ← (Scene.read (Text.unifyLineEnds s)).toOption
  let practice ← (practiceScene group edits scene).toOption
  let written ← practice.text.toOption
  return Utf8.encode written

def producedBytes (b : Plan) (script : Option SceneScript) (source : Path) (content : Utf8.Bytes) :
    Option Utf8.Bytes :=
  match script with
  | none => some content
  | some s =>
    if b.editsScenes source.extension then do
      let edits ← Keyed.get? s.transforms source.stem
      sceneBytes b.group edits content
    else some content

def convertedBytes (b : Plan) (extension : Text) (content : Utf8.Bytes) : Option Utf8.Bytes :=
  if b.conversion.covers extension then do
    let s ← (Utf8.decode content).toOption
    let practice ← b.conversion.practiceText (Text.unifyLineEnds s)
    return Utf8.encode practice
  else some content

def practiceBytes (b : Plan) (script : Option SceneScript) (source : Path) (content : Utf8.Bytes) :
    Option Utf8.Bytes :=
  (producedBytes b script source content).bind (convertedBytes b source.extension)

/-! ### The output steps -/

theorem copyFile_eq_ok_iff : t.copyFile source target time = .ok v ↔ t.same source target = false ∧
    ∃ content, t.readBytes source = .ok content ∧ t.writeBytes target content time = .ok v := by
  rw [FileTree.copyFile]
  cases t.same source target with
  | true => simp
  | false =>
    cases t.readBytes source with
    | error e => simp [bind, Except.bind]
    | ok content => simp [bind, Except.bind]

theorem loadScene_eq_ok_iff {scene : Scene} : loadScene t source = .ok scene ↔
    ∃ content s, t.readBytes source = .ok content ∧ Utf8.decode content = .ok s ∧
      Scene.read (Text.unifyLineEnds s) = .ok scene := by
  rw [loadScene, FileTree.readText]
  cases t.readBytes source with
  | error e => simp
  | ok content =>
    cases hd : Utf8.decode content with
    | error e => simp [hd]
    | ok s => cases hr : Scene.read (Text.unifyLineEnds s) <;> simp [hd, hr]

theorem saveScene_eq_ok_iff {scene : Scene} : saveScene t scene target time = .ok v ↔
    ∃ s, scene.text = .ok s ∧ t.writeBytes target (Utf8.encode s) time = .ok v := by
  cases hs : scene.text with
  | error e => simp [saveScene, hs]
  | ok s =>
    cases hw : t.writeBytes target (Utf8.encode s) time <;>
      simp [saveScene, hs, FileTree.writeText, hw]

theorem toOption_eq_some_iff {ε α : Type} {x : Except ε α} {a : α} :
    x.toOption = some a ↔ x = .ok a := by
  cases x <;> simp [Except.toOption]

theorem sceneBytes_eq_some_iff {group : Option Text} {edits : List Scene.Edit} :
    sceneBytes group edits content = some c ↔ ∃ s scene practice written,
      Utf8.decode content = .ok s ∧ Scene.read (Text.unifyLineEnds s) = .ok scene ∧
      practiceScene group edits scene = .ok practice ∧ practice.text = .ok written ∧
      c = Utf8.encode written := by
  simp only [sceneBytes, bind, Option.bind_eq_some_iff, toOption_eq_some_iff, pure,
    Option.some.injEq]
  constructor
  · rintro ⟨s, hs, scene, hr, practice, hp, written, hw, rfl⟩
    exact ⟨s, scene, practice, written, hs, hr, hp, hw, rfl⟩
  · rintro ⟨s, scene, practice, written, hs, hr, hp, hw, rfl⟩
    exact ⟨s, hs, scene, hr, practice, hp, written, hw, rfl⟩

theorem applyScript_eq_ok_iff {s : SceneScript} {group : Option Text} :
    applyScript t group s source target time = .ok v ↔
      ∃ content edits c, t.readBytes source = .ok content ∧
        Keyed.get? s.transforms source.stem = some edits ∧
        sceneBytes group edits content = some c ∧ t.writeBytes target c time = .ok v := by
  simp only [sceneBytes_eq_some_iff]
  constructor
  · intro h
    rw [applyScript] at h
    cases he : Keyed.get? s.transforms source.stem with
    | none => simp [he] at h
    | some edits =>
      simp only [he] at h
      cases hl : loadScene t source with
      | error e => simp [hl, bind, Except.bind] at h
      | ok scene =>
        obtain ⟨content, x, hr, hd, hs⟩ := loadScene_eq_ok_iff.mp hl
        simp only [hl, bind, Except.bind] at h
        cases hp : practiceScene group edits scene with
        | error e => cases e <;> simp [hp] at h
        | ok practice =>
          simp only [hp] at h
          obtain ⟨written, hx, hw⟩ := saveScene_eq_ok_iff.mp h
          exact ⟨content, edits, _, hr, rfl, ⟨x, scene, practice, written, hd, hs, hp, hx, rfl⟩, hw⟩
  · rintro ⟨content, edits, _, hr, he, ⟨x, scene, practice, written, hd, hs, hp, hx, rfl⟩, hw⟩
    have hl := loadScene_eq_ok_iff.mpr ⟨content, x, hr, hd, hs⟩
    simp only [applyScript, he, hl, bind, Except.bind, hp]
    exact saveScene_eq_ok_iff.mpr ⟨written, hx, hw⟩

theorem produce_ok {step : Outcome}
    (h : produce b t script source target time = .ok (.ok (v, step))) :
    ∃ content c, t.readBytes source = .ok content ∧ producedBytes b script source content = some c ∧
      t.writeBytes target c time = .ok v ∧
      ((step = .copy ∧ c = content ∧ t.same source target = false) ∨
        (step = .diff ∧ ∃ s, c = Utf8.encode s)) := by
  unfold produce at h
  cases script with
  | none =>
    cases hc : t.copyFile source target time with
    | error e => simp [hc] at h
    | ok u =>
      simp only [hc, Except.ok.injEq, Prod.mk.injEq] at h
      obtain ⟨rfl, rfl⟩ := h
      obtain ⟨hsame, content, hr, hw⟩ := copyFile_eq_ok_iff.mp hc
      exact ⟨content, content, hr, rfl, hw, .inl ⟨rfl, rfl, hsame⟩⟩
  | some s =>
    by_cases he : b.editsScenes source.extension = true
    · simp only [he, if_true] at h
      cases ha : applyScript t b.group s source target time with
      | error e =>
        simp only [ha] at h
        split at h
        · next hv => cases hv
        · cases h
        · cases h
      | ok u =>
        simp only [ha, Except.ok.injEq, Prod.mk.injEq] at h
        obtain ⟨rfl, rfl⟩ := h
        obtain ⟨content, edits, c, hr, hk, hb, hw⟩ := applyScript_eq_ok_iff.mp ha
        refine ⟨content, c, hr, ?_, hw, .inr ⟨rfl, ?_⟩⟩
        · simp [producedBytes, he, hk, hb]
        · obtain ⟨-, -, -, written, -, -, -, -, hc⟩ := sceneBytes_eq_some_iff.mp hb
          exact ⟨written, hc⟩
    · cases hc : t.copyFile source target time with
      | error e => simp [he, hc] at h
      | ok u =>
        simp only [he, Bool.false_eq_true, if_false, hc, Except.ok.injEq, Prod.mk.injEq] at h
        obtain ⟨rfl, rfl⟩ := h
        obtain ⟨hsame, content, hr, hw⟩ := copyFile_eq_ok_iff.mp hc
        refine ⟨content, content, hr, ?_, hw, .inl ⟨rfl, rfl, hsame⟩⟩
        simp [producedBytes, he]

theorem produce_ne_fail {step : Outcome}
    (h : produce b t script source target time = .ok (.ok (v, step))) : step ≠ .fail := by
  obtain ⟨-, -, -, -, -, ⟨rfl, -⟩ | ⟨rfl, -⟩⟩ := produce_ok h <;> decide

/-! Why a step fails does not depend on the time. -/

theorem copyFile_error {e : FileFault} (h : t.copyFile source target time = .error e) (τ : Int) :
    t.copyFile source target τ = .error e := by
  rw [FileTree.copyFile] at h ⊢
  split at h
  · next hs => rw [if_pos hs, h]
  · next hs =>
    rw [if_neg hs]
    cases hr : t.readBytes source with
    | error e' =>
      rw [hr] at h
      exact h
    | ok content =>
      rw [hr] at h
      exact FileTree.writeBytes_error h content τ

theorem saveScene_error {scene : Scene} {e : SceneFault}
    (h : saveScene t scene target time = .error e) (τ : Int) :
    saveScene t scene target τ = .error e := by
  rw [saveScene] at h ⊢
  cases hs : scene.text with
  | error d =>
    rw [hs] at h
    exact h
  | ok s =>
    simp only [hs, FileTree.writeText] at h ⊢
    cases hw : t.writeBytes target (Utf8.encode s) time with
    | ok u => simp [hw] at h
    | error e' =>
      rw [hw] at h
      rw [FileTree.writeBytes_error hw _ τ]
      exact h

theorem applyScript_error {s : SceneScript} {group : Option Text} {e : SceneFault}
    (h : applyScript t group s source target time = .error e) (τ : Int) :
    applyScript t group s source target τ = .error e := by
  rw [applyScript] at h ⊢
  cases hk : Keyed.get? s.transforms source.stem with
  | none =>
    rw [hk] at h
    exact h
  | some edits =>
    simp only [hk] at h ⊢
    cases hl : loadScene t source with
    | error e' =>
      rw [hl] at h
      exact h
    | ok scene =>
      simp only [hl, bind, Except.bind] at h ⊢
      cases hp : practiceScene group edits scene with
      | error e' => cases e' <;> simpa [hp] using h
      | ok practice =>
        simp only [hp] at h ⊢
        exact saveScene_error h τ

theorem produce_error {m : Text} (h : produce b t script source target time = .ok (.error m))
    (τ : Int) : produce b t script source target τ = .ok (.error m) := by
  unfold produce at h ⊢
  cases script with
  | none =>
    cases hc : t.copyFile source target time with
    | ok u => simp [hc] at h
    | error e =>
      rw [hc] at h
      rw [copyFile_error hc τ]
      exact h
  | some s =>
    by_cases hs : b.editsScenes source.extension = true
    · simp only [hs, if_true] at h ⊢
      cases ha : applyScript t b.group s source target time with
      | ok u => simp [ha] at h
      | error e =>
        rw [ha] at h
        rw [applyScript_error ha τ]
        exact h
    · simp only [hs] at h ⊢
      cases hc : t.copyFile source target time with
      | ok u => simp [hc] at h
      | error e =>
        rw [hc] at h
        rw [copyFile_error hc τ]
        exact h

theorem produce_of_bytes (hr : t.readBytes source = .ok content)
    (hb : producedBytes b script source content = some c)
    (hw : t.writeBytes target c time = .ok v) (hs : t.same source target = false) :
    ∃ step, produce b t script source target time = .ok (.ok (v, step)) := by
  have hcopy : c = content → t.copyFile source target time = .ok v := by
    rintro rfl
    exact copyFile_eq_ok_iff.mpr ⟨hs, c, hr, hw⟩
  cases script with
  | none =>
    refine ⟨.copy, ?_⟩
    simp [produce, hcopy (Option.some.inj hb).symm]
  | some s =>
    by_cases he : b.editsScenes source.extension = true
    · simp only [producedBytes, he, if_true, bind, Option.bind_eq_some_iff] at hb
      obtain ⟨edits, hk, hb⟩ := hb
      refine ⟨.diff, ?_⟩
      simp [produce, he, applyScript_eq_ok_iff.mpr ⟨content, edits, c, hr, hk, hb, hw⟩]
    · simp only [producedBytes, he] at hb
      refine ⟨.copy, ?_⟩
      simp [produce, he, hcopy (Option.some.inj hb).symm]

theorem convert_ok {extension : Text} {steps : List Outcome} (hr : v.readBytes target = .ok c)
    (h : convert b v extension target time = .ok (.ok (w, steps))) : .fail ∉ steps ∧
      ∃ d, convertedBytes b extension c = some d ∧
        (w = v ∧ d = c ∨ v.writeBytes target d time = .ok w) := by
  rw [convert] at h
  by_cases hc : b.conversion.covers extension = true
  · simp only [hc, if_true, FileTree.readText, hr] at h
    cases hd : Utf8.decode c with
    | error e => simp [hd] at h
    | ok s =>
      simp only [hd] at h
      cases hp : b.conversion.practiceText (Text.unifyLineEnds s) with
      | none => simp [hp] at h
      | some x =>
        simp only [hp, FileTree.writeText] at h
        cases hw : v.writeBytes target (Utf8.encode x) time with
        | error e => simp [hw] at h
        | ok u =>
          simp only [hw, Except.ok.injEq, Prod.mk.injEq] at h
          obtain ⟨rfl, rfl⟩ := h
          refine ⟨by simp, Utf8.encode x, ?_, .inr hw⟩
          simp [convertedBytes, hc, hd, hp, Except.toOption]
  · simp only [hc, if_false, Except.ok.injEq, Prod.mk.injEq, Bool.false_eq_true] at h
    obtain ⟨rfl, rfl⟩ := h
    refine ⟨by simp, c, ?_, .inl ⟨rfl, rfl⟩⟩
    simp [convertedBytes, hc]

theorem convert_of_bytes {extension : Text} (hr : v.readBytes target = .ok c)
    (hd : convertedBytes b extension c = some d) (hw : v.writeBytes target d time = .ok w) :
    ∃ w steps, convert b v extension target time = .ok (.ok (w, steps)) := by
  by_cases hc : b.conversion.covers extension = true
  · simp only [convertedBytes, hc, if_true, bind, Option.bind_eq_some_iff, toOption_eq_some_iff,
      pure, Option.some.injEq] at hd
    obtain ⟨s, hs, x, hx, rfl⟩ := hd
    refine ⟨w, [.process], ?_⟩
    simp [convert, hc, FileTree.readText, hr, hs, hx, FileTree.writeText, hw]
  · exact ⟨v, [], by simp [convert, hc]⟩

/-! ### Building one file -/

inductive Regenerates (b : Plan) (t : FileTree) (script : Option SceneScript)
    (source target : Path) (time : Int) : FileTree → FileResult → Prop
  | blocked {u e} (hd : t.ensureDirectories target.parent = (u, some e))
      (he : e ≠ .nullCharacter) : Regenerates b t script source target time u
        ⟨source, target, [.fail], e.message⟩
  | unproduced {u m} (hd : t.ensureDirectories target.parent = (u, none))
      (hp : produce b u script source target time = .ok (.error m)) :
      Regenerates b t script source target time u ⟨source, target, [.fail], m⟩
  | unconverted {u v step m} (hd : t.ensureDirectories target.parent = (u, none))
      (hp : produce b u script source target time = .ok (.ok (v, step)))
      (hc : convert b v source.extension target time = .ok (.error m)) :
      Regenerates b t script source target time v ⟨source, target, [step, .fail], m⟩
  | done {u v w step steps} (hd : t.ensureDirectories target.parent = (u, none))
      (hp : produce b u script source target time = .ok (.ok (v, step)))
      (hc : convert b v source.extension target time = .ok (.ok (w, steps))) :
      Regenerates b t script source target time w ⟨source, target, step :: steps, []⟩

theorem regenerates {r : FileResult}
    (h : regenerate b t script source target time = ⟨w, .ok r⟩) :
    Regenerates b t script source target time w r := by
  rw [regenerate] at h
  cases hd : t.ensureDirectories target.parent with
  | mk u o =>
    rw [hd] at h
    cases o with
    | some e =>
      have he : e ≠ .nullCharacter := by
        rintro rfl
        cases h
      have hfail : (⟨u, .ok ⟨source, target, [.fail], e.message⟩⟩ : Done (Except Abort FileResult)) =
          ⟨w, .ok r⟩ := by
        cases e with
        | nullCharacter => exact absurd rfl he
        | _ => exact h
      obtain ⟨rfl, hr⟩ := Done.mk.inj hfail
      obtain rfl := Except.ok.inj hr
      exact .blocked hd he
    | none =>
      simp only at h
      cases hp : produce b u script source target time with
      | error a => simp [hp] at h
      | ok x =>
        cases x with
        | error m =>
          simp only [hp, Done.mk.injEq, Except.ok.injEq] at h
          obtain ⟨rfl, rfl⟩ := h
          exact .unproduced hd hp
        | ok x =>
          obtain ⟨v, step⟩ := x
          simp only [hp] at h
          cases hc : convert b v source.extension target time with
          | error a => simp [hc] at h
          | ok x =>
            cases x with
            | error m =>
              simp only [hc, Done.mk.injEq, Except.ok.injEq] at h
              obtain ⟨rfl, rfl⟩ := h
              exact .unconverted hd hp hc
            | ok x =>
              obtain ⟨w', steps⟩ := x
              simp only [hc, Done.mk.injEq, Except.ok.injEq] at h
              obtain ⟨rfl, rfl⟩ := h
              exact .done hd hp hc

theorem regenerate_bytes {r : FileResult}
    (hr : regenerate b t script source target time = ⟨w, .ok r⟩) (hf : r.failed = false) :
    ∃ u content c, t.ensureDirectories target.parent = (u, none) ∧
      u.readBytes source = .ok content ∧ practiceBytes b script source content = some c ∧
      u.writeBytes target c time = .ok w := by
  cases regenerates hr with
  | blocked hd he => simp [FileResult.failed] at hf
  | unproduced hd hp => simp [FileResult.failed] at hf
  | unconverted hd hp hc => simp [FileResult.failed] at hf
  | done hd hp hc =>
    obtain ⟨content, d, hread, hbytes, hw, -⟩ := produce_ok hp
    obtain ⟨-, c, hconverted, hwc⟩ := convert_ok (FileTree.readBytes_written hw) hc
    refine ⟨_, content, c, hd, hread, ?_, ?_⟩
    · simp [practiceBytes, hbytes, hconverted]
    · rcases hwc with ⟨rfl, rfl⟩ | hwc
      · exact hw
      · rw [← hwc]
        exact (FileTree.writeBytes_written hw c time).1.symm

theorem regenerate_ok {r : FileResult} (h : t.WellFormed) (ht : target.Descends)
    (hr : regenerate b t script source target time = ⟨w, .ok r⟩) (hf : r.failed = false) :
    ∃ u content c, t.Extends u (t.landing target.parent) ∧ u.readBytes source = .ok content ∧
      practiceBytes b script source content = some c ∧
      u.writeBytes target c time = .ok w := by
  obtain ⟨u, content, c, hd, hrest⟩ := regenerate_bytes hr hf
  have hx := (h.ensureDirectories ht.parent).1
  rw [hd] at hx
  exact ⟨u, content, c, hx, hrest⟩

theorem regenerate_of_bytes (he : t.ensureDirectories target.parent = (u, none))
    (hr : u.readBytes source = .ok content) (hb : practiceBytes b script source content = some c)
    (hw : u.writeBytes target c time = .ok w) (hs : u.same source target = false) :
    ∃ w r, regenerate b t script source target time = ⟨w, .ok r⟩ ∧ r.failed = false := by
  obtain ⟨d, hd, hc⟩ := Option.bind_eq_some_iff.mp hb
  obtain ⟨-, v, hwd⟩ := FileTree.writeBytes_written hw d time
  obtain ⟨step, hp⟩ := produce_of_bytes hr hd hwd hs
  have hread := FileTree.readBytes_written hwd
  have hwc := (FileTree.writeBytes_written hwd c time).1.trans hw
  obtain ⟨w', steps, hv⟩ := convert_of_bytes hread hc hwc
  have hstep := produce_ne_fail hp
  have hsteps := (convert_ok hread hv).1
  refine ⟨w', ⟨source, target, step :: steps, []⟩, ?_, ?_⟩
  · simp only [regenerate, he, hp, hv]
  · simpa [FileResult.failed] using ⟨Ne.symm hstep, hsteps⟩

end Coursework.Build
