import Coursework.Proofs.Build.Publishing

namespace Coursework

namespace FileTree

variable {t u v : FileTree} {p q : Path} {l : Location} {content : Utf8.Bytes} {time : Int}

/-- One tree is another with directories made where there was nothing, on the way along a path.
Nothing is asked of the tree or of the path. -/
structure MadeWay (t u : FileTree) (p : Path) : Prop where
  place : u.place = t.place
  get? : ∀ l, u.get? l = t.get? l ∨ (t.get? l = none ∧ u.get? l = some .directory ∧
    ∃ q : Path, q.anchor = p.anchor ∧ q.parts <+: p.parts ∧ u.locate q = .ok l)

namespace MadeWay

theorem refl (t : FileTree) (p : Path) : t.MadeWay t p := ⟨rfl, fun _ => .inl rfl⟩

theorem directory (h : t.MadeWay u p) (hd : t.get? l = some .directory) :
    u.get? l = some .directory := by
  rcases h.get? l with hl | ⟨hl, -, -⟩
  · rw [hl, hd]
  · rw [hd] at hl
    cases hl

theorem file_iff (h : t.MadeWay u p) :
    u.get? l = some (.file content time) ↔ t.get? l = some (.file content time) := by
  rcases h.get? l with hl | ⟨hl, hu, -⟩
  · rw [hl]
  · rw [hl, hu]
    simp

theorem trans (h : t.MadeWay u q) (k : u.MadeWay v p) (ha : q.anchor = p.anchor)
    (hq : q.parts <+: p.parts) : t.MadeWay v p where
  place := k.place.trans h.place
  get? l := by
    rcases k.get? l with hk | ⟨hk, hv, hway⟩
    · rcases h.get? l with hl | ⟨hl, hu, s, hs, hsq, hloc⟩
      · exact .inl (hk.trans hl)
      · refine .inr ⟨hl, hk.trans hu, s, hs.trans ha, hsq.trans hq, ?_⟩
        exact locate_mono (fun m hm => k.directory hm) k.place hloc
    · rcases h.get? l with hl | ⟨-, hu, -⟩
      · exact .inr ⟨hl.symm.trans hk, hv, hway⟩
      · rw [hk] at hu
        cases hu

end MadeWay

theorem madeWay_makeDirectory (h : t.makeDirectory p = .ok u) : t.MadeWay u p := by
  rw [makeDirectory] at h
  split at h
  · cases h
  · split at h
    · cases h
    · next l hl =>
      split at h
      · cases h
      · next hnone =>
        obtain rfl := Except.ok.inj h
        have hne : l ≠ [] := by
          rintro rfl
          cases hnone
        refine ⟨rfl, fun m => ?_⟩
        rw [get?_put t _ hne]
        by_cases hm : m = l
        · have hway : (t.put l .directory).locate p = .ok l := locate_put (by simp [hnone]) hl
          rw [if_pos hm, hm]
          exact .inr ⟨hnone, rfl, p, rfl, List.prefix_refl _, hway⟩
        · rw [if_neg hm]
          exact .inl rfl

theorem madeWay_ensureDirectory (t : FileTree) (p : Path) :
    t.MadeWay (t.ensureDirectory p).1 p := by
  rw [ensureDirectory]
  cases hm : t.makeDirectory p with
  | ok u => exact madeWay_makeDirectory hm
  | error e => exact .refl t p

theorem madeWay_ensureDirectoriesWithin (levels : Nat) (t : FileTree) (p : Path) :
    t.MadeWay (t.ensureDirectoriesWithin levels p).1 p := by
  induction levels generalizing p with
  | zero => exact madeWay_ensureDirectory t p
  | succ levels ih =>
    have hup : p.parent.parts <+: p.parts := List.dropLast_prefix _
    rw [ensureDirectoriesWithin]
    cases hm : t.makeDirectory p with
    | ok u => exact madeWay_makeDirectory hm
    | error e =>
      cases e with
      | missing q =>
        by_cases hnil : p.parts = []
        · simp only [hnil, if_true]
          exact .refl t p
        · have hparent := ih p.parent
          simp only [hnil, if_false]
          cases hr : t.ensureDirectoriesWithin levels p.parent with
          | mk u o =>
            rw [hr] at hparent
            cases o with
            | none => exact hparent.trans (madeWay_ensureDirectory u p) rfl hup
            | some e => exact hparent.trans (.refl u p) rfl hup
      | _ => exact .refl t p

theorem madeWay_ensureDirectories (t : FileTree) (p : Path) :
    t.MadeWay (t.ensureDirectories p).1 p := madeWay_ensureDirectoriesWithin _ t p

end FileTree

namespace Build

variable {α β : Type} {b : Plan} {t u : FileTree} {script : Option SceneScript}
  {source target : Path} {time : Int}

abbrev Steps := ExceptT SceneFault (StateM FileTree)

namespace Steps

def runOn (m : Steps α) (t : FileTree) : Except SceneFault α × FileTree := m.run.run t

def look (f : FileTree → Except SceneFault α) : Steps α := do
  match f (← get) with
  | .ok a => return a
  | .error e => throw e

def write (p : Path) (s : Text) (time : Int) : Steps Unit := do
  match (← get).writeText p s time with
  | .ok u => set u
  | .error e => throw (.file e)

def applyScript (group : Option Text) (script : SceneScript) (source target : Path) (time : Int) :
    Steps Unit := do
  let edits ← look fun _ => match Keyed.get? script.transforms source.stem with
    | some edits => .ok edits
    | none => .error (.noTransform source script.path source.stem)
  let scene ← look fun t => loadScene t source
  let practice ← look fun _ => match practiceScene group edits scene with
    | .ok practice => .ok practice
    | .error (.step e) => .error (.transform source script.path source.stem e)
    | .error (.defect d) => .error (.defect d)
  let written ← look fun _ => match practice.text with
    | .ok s => .ok s
    | .error d => .error (.defect d)
  write target written time

theorem runOn_bind (m : Steps α) (k : α → Steps β) (t : FileTree) :
    (m >>= k).runOn t = match m.runOn t with
      | (.ok a, u) => (k a).runOn u
      | (.error e, u) => (.error e, u) := by
  simp only [runOn, ExceptT.run_bind, StateT.run_bind]
  cases m.run.run t with
  | mk r u => cases r <;> rfl

theorem runOn_look (f : FileTree → Except SceneFault α) (t : FileTree) :
    (look f).runOn t = (f t, t) := by
  simp only [look, runOn_bind]
  change (match f t with
    | .ok a => (return a : Steps α)
    | .error e => throw e).runOn t = _
  cases f t <;> rfl

theorem runOn_write (p : Path) (s : Text) (time : Int) (t : FileTree) :
    (write p s time).runOn t = match t.writeText p s time with
      | .ok u => (.ok (), u)
      | .error e => (.error (.file e), t) := by
  simp only [write, runOn_bind]
  change (match t.writeText p s time with
    | .ok u => (set u : Steps Unit)
    | .error e => throw (SceneFault.file e)).runOn t = _
  cases t.writeText p s time <;> rfl

theorem runOn_applyScript (group : Option Text) (s : SceneScript) (source target : Path)
    (time : Int) (t : FileTree) :
    (applyScript group s source target time).runOn t =
      match Build.applyScript t group s source target time with
      | .ok u => (.ok (), u)
      | .error e => (.error e, t) := by
  simp only [applyScript, runOn_bind, runOn_look, runOn_write]
  rw [Build.applyScript]
  cases Keyed.get? s.transforms source.stem with
  | none => rfl
  | some edits =>
    simp only
    cases loadScene t source with
    | error e => rfl
    | ok scene =>
      simp only [bind, Except.bind]
      cases practiceScene group edits scene with
      | error e => cases e <;> rfl
      | ok practice =>
        simp only [saveScene]
        cases practice.text with
        | error d => rfl
        | ok written =>
          simp only
          cases t.writeText target written time <;> rfl

end Steps

theorem madeWay_of_fail {forced : Bool} {r : FileResult}
    (h : buildFile b t script forced source time = ⟨u, .ok r⟩) (hr : r.steps = [.fail]) :
    t.MadeWay u r.target.parent := by
  rw [buildFile] at h
  split at h
  · cases h
  · next target hp =>
    have hmade := t.madeWay_ensureDirectories target.parent
    split at h
    · obtain ⟨rfl, hok⟩ := Done.mk.inj h
      obtain rfl := Except.ok.inj hok
      cases hr
    · cases regenerates h with
      | blocked hd he =>
        rw [hd] at hmade
        exact hmade
      | unproduced hd hp =>
        rw [hd] at hmade
        exact hmade
      | unconverted hd hp hc => cases hr
      | done hd hp hc => exact absurd (List.cons.inj hr).1 (produce_ne_fail hp)

/-- A scene that cannot be made leaves the tree as it is, wherever the fault lies. The build of a
file that fails before its first output step leaves all files as they are and makes at most
directories on the way to the practice. Its script turns scenes into scenes and writes none. -/
theorem refused_files_stay (b : Plan) (t : FileTree) (script : Option SceneScript) (forced : Bool)
    (source : Path) (time : Int) :
    (∀ group s target e u, (Steps.applyScript group s source target time).runOn t = (.error e, u) ↔
      applyScript t group s source target time = .error e ∧ u = t) ∧
    ∀ u r, buildFile b t script forced source time = ⟨u, .ok r⟩ → r.steps = [.fail] →
      t.MadeWay u r.target.parent ∧
      ∀ l content τ, u.get? l = some (.file content τ) ↔ t.get? l = some (.file content τ) := by
  constructor
  · intro group s target e u
    rw [Steps.runOn_applyScript]
    cases applyScript t group s source target time with
    | ok v => simp
    | error e' => simp [eq_comm]
  · intro u r h hr
    have hmade := madeWay_of_fail h hr
    exact ⟨hmade, fun l content τ => hmade.file_iff⟩

def garbledTree : FileTree := singleTree "no scene"

def garbledBuild : Done (Except Abort FileResult) := singleBuild "no scene"

theorem refused_files_stay_garbled :
    (∃ e, (Steps.applyScript none idleScript singleSource singleTarget 6).runOn garbledTree =
      (.error e, garbledTree)) ∧
    (∃ m, garbledBuild.result = .ok ⟨singleSource, singleTarget, [.fail], m⟩) ∧
    garbledTree.get? ["w", "p"] = none ∧ garbledBuild.tree.get? ["w", "p"] = some .directory ∧
    ∀ l content τ, garbledBuild.tree.get? l = some (.file content τ) ↔
      garbledTree.get? l = some (.file content τ) := by
  have hstay := refused_files_stay (sample "diff.py") garbledTree (some idleScript) false
    singleSource 6
  have hfault : applyScript garbledTree none idleScript singleSource singleTarget 6 =
      .error (.format singleSource.text (.sections (.contentBeforeHeader 1))) := by decide +kernel
  have hresult : garbledBuild.result = .ok ⟨singleSource, singleTarget, [.fail],
      "/w/s/a.tscn:1: content before the first section"⟩ := by decide +kernel
  refine ⟨⟨_, (hstay.1 none idleScript singleTarget _ _).mpr ⟨hfault, rfl⟩⟩, ⟨_, hresult⟩, ?_, ?_, ?_⟩
  · decide +kernel
  · decide +kernel
  · exact (hstay.2 garbledBuild.tree _ (Done.eq_mk hresult) rfl).2

end Build

end Coursework
