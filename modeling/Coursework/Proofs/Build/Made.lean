import Coursework.Proofs.FileTree.Rooted
import Coursework.Proofs.Build.Rebuilding

/-!
Where practices come from. In a project that is edited and built, a practice that is newer than its
solution and no scene holds what is made of that solution, whatever else the builds reported. The
roots may be any paths, and may lie in each other.
-/

namespace Coursework.Build

open Relation (ReflTransGen)

variable {b : Plan} {t u v w : FileTree} {script : Option SceneScript} {source target d p : Path}
  {forced : Bool} {pattern : Option Text} {now time : Int} {rel : List Text} {l : Location}
  {content c : Utf8.Bytes} {ds ps : List Path} {s s' : FileTree × Int}

/-! ### One file -/

theorem site_source (b : Plan) (t : FileTree) (hr : ['.', '.'] ∉ rel) :
    t.site (b.source rel) = t.site b.roots.solutions ++ rel := FileTree.site_under _ _ hr

theorem site_target (b : Plan) (t : FileTree) (hr : ['.', '.'] ∉ rel) :
    t.site (b.target rel) = t.site b.roots.practices ++ rel := FileTree.site_under _ _ hr

theorem practiceBytes_of_not_scene (script : Option SceneScript)
    (hp : b.editsScenes p.extension = false) :
    practiceBytes b script p content = practiceBytes b none p content := by
  cases script with
  | none => rfl
  | some s => simp [practiceBytes, producedBytes, hp]

structure Remade (t w : FileTree) (source target : Path) (time : Int) (content c : Utf8.Bytes) :
    Prop where
  solution : ∃ σ, t.get? (t.site source) = some (.file content σ)
  sourceNull : source.hasNull = false
  targetNull : target.hasNull = false
  located : w.locate target = .ok (t.site target)
  written : w.get? (t.site target) = some (.file c time)

theorem remade_of_written (h : t.WellFormed) (hd : t.ensureDirectories target.parent = (u, none))
    (hr : u.readBytes source = .ok content) (hw : u.writeBytes target c time = .ok w) :
    Remade t w source target time content c := by
  have hx := h.ensureDirectories_confined (fun _ => False) target.parent
  rw [hd] at hx
  obtain ⟨hsn, l, σ, hl, hg⟩ := FileTree.readBytes_iff.mp hr
  obtain ⟨m, hm, hmw, hgw, htn⟩ := FileTree.written_at hw
  rw [hx.wellFormed.locate_eq_site hl, hx.file_iff not_false, FileTree.site_congr hx.place] at hg
  rw [hx.wellFormed.locate_eq_site hm, FileTree.site_congr hx.place] at hmw hgw
  exact ⟨⟨σ, hg⟩, hsn, htn, hmw, hgw⟩

theorem convertedBytes_none {extension : Text} (hw : u.writeBytes target c time = .ok v)
    (h : ∀ w steps, convert b v extension target time ≠ .ok (.ok (w, steps))) :
    convertedBytes b extension c = none := by
  cases hd : convertedBytes b extension c with
  | none => rfl
  | some d =>
    obtain ⟨hagain, w, hwd⟩ := FileTree.writeBytes_written hw d time
    obtain ⟨w, steps, hc⟩ := convert_of_bytes (FileTree.readBytes_written hw) hd (hagain.trans hwd)
    exact absurd hc (h w steps)

theorem regenerate_leaves (h : t.WellFormed) (b : Plan) (script : Option SceneScript)
    (source target : Path) (time : Int) :
    t.Confined (regenerate b t script source target time).tree (fun _ => False) ∨
      ∃ content c, Remade t (regenerate b t script source target time).tree source target time
        content c ∧ ∀ d, practiceBytes b script source content = some d → d = c := by
  have hx := h.ensureDirectories_confined (fun _ => False) target.parent
  rw [regenerate]
  cases hd : t.ensureDirectories target.parent with
  | mk u o =>
    rw [hd] at hx
    cases o with
    | some e => cases e <;> exact .inl hx
    | none =>
      simp only
      cases hp : produce b u script source target time with
      | error a => exact .inl hx
      | ok x =>
        cases x with
        | error m => exact .inl hx
        | ok x =>
          obtain ⟨v, step⟩ := x
          obtain ⟨content, c, hread, hbytes, hw, -⟩ := produce_ok hp
          have hpractice : practiceBytes b script source content =
              convertedBytes b source.extension c := by
            rw [practiceBytes, hbytes]
            rfl
          -- what was written can be read and written again, so only the conversion can fail
          have hstuck (hc : ∀ w steps, convert b v source.extension target time ≠
              .ok (.ok (w, steps))) (d : Utf8.Bytes) (hd : practiceBytes b script source content =
              some d) : d = c := by
            rw [hpractice, convertedBytes_none hw hc] at hd
            cases hd
          simp only
          cases hc : convert b v source.extension target time with
          | error a =>
            refine .inr ⟨content, c, remade_of_written h hd hread hw, hstuck fun w steps he => ?_⟩
            rw [hc] at he
            cases he
          | ok x =>
            cases x with
            | error m =>
              refine .inr ⟨content, c, remade_of_written h hd hread hw, hstuck fun w steps he => ?_⟩
              rw [hc] at he
              cases he
            | ok x =>
              obtain ⟨-, c', hconverted, hwc⟩ := convert_ok (FileTree.readBytes_written hw) hc
              have hwritten : u.writeBytes target c' time = .ok x.1 := by
                rcases hwc with ⟨hv, rfl⟩ | hwc
                · rw [hv, hw]
                · rw [← hwc, (FileTree.writeBytes_written hw c' time).1]
              refine .inr ⟨content, c', remade_of_written h hd hread hwritten, fun d hd => ?_⟩
              rw [hpractice, hconverted] at hd
              exact (Option.some.inj hd).symm

theorem regenerate_remade {r : FileResult} (h : t.WellFormed)
    (hr : regenerate b t script source target time = ⟨w, .ok r⟩) (hf : r.failed = false) :
    ∃ content c, Remade t w source target time content c ∧
      practiceBytes b script source content = some c := by
  obtain ⟨u, content, c, hd, hread, hbytes, hw⟩ := regenerate_bytes hr hf
  exact ⟨content, c, remade_of_written h hd hread hw, hbytes⟩

theorem buildFile_source_confined (h : t.WellFormed) (b : Plan) (script : Option SceneScript)
    (forced : Bool) (hr : ['.', '.'] ∉ rel) (time : Int) :
    t.Confined (buildFile b t script forced (b.source rel) time).tree
      (· = t.site b.roots.practices ++ rel) := by
  apply (buildFile_confined h b script forced (b.source rel) time).mono
  rintro l ⟨x, hx, rfl⟩
  rw [practiceOf_source] at hx
  rw [← Except.ok.inj hx, site_target b t hr]

def Makes (b : Plan) (script : Option SceneScript) (forced : Bool) (time : Int) (p : Path)
    (t u : FileTree) : Prop :=
  ∃ r, buildFile b t script forced p time = ⟨u, .ok r⟩ ∧ r.failed = false

theorem Makes.tree (h : Makes b script forced time p t u) :
    u = (buildFile b t script forced p time).tree := by
  obtain ⟨r, hr, -⟩ := h
  rw [hr]

theorem makes_cases (h : t.WellFormed) (hm : Makes b script forced time (b.source rel) t u) :
    (u = t ∧ forced = false ∧ Rests t script (b.source rel) (b.target rel)) ∨
      ∃ content c, Remade t u (b.source rel) (b.target rel) time content c ∧
        practiceBytes b script (b.source rel) content = some c := by
  obtain ⟨r, hr, hf⟩ := hm
  rw [buildFile, practiceOf_source] at hr
  simp only at hr
  split at hr
  · next hup =>
    obtain ⟨hforced, hrest⟩ := upToDate_iff.mp hup
    exact .inl ⟨(Done.mk.inj hr).1.symm, hforced, upToDate_iff.mpr ⟨rfl, hrest⟩⟩
  · exact .inr (regenerate_remade h hr hf)

/-! ### Builds without failures, step by step -/

inductive Through {α : Type} (R : α → FileTree → FileTree → Prop) :
    List α → FileTree → FileTree → Prop
  | nil (t : FileTree) : Through R [] t t
  | cons {a : α} {as : List α} {t u v : FileTree} (h : R a t u) (hs : Through R as u v) :
      Through R (a :: as) t v

namespace Through

variable {α : Type} {R : α → FileTree → FileTree → Prop} {P : FileTree → Prop} {as : List α}
  {a : α}

theorem reaches {Q : FileTree → Prop} (h : Through R as t u)
    (hstep : ∀ a' ∈ as, ∀ v w, P v → R a' v w → P w ∧ (Q v → Q w) ∧ (a' = a → Q w))
    (ht : P t) : P u ∧ (Q t → Q u) ∧ (a ∈ as → Q u) := by
  induction h with
  | nil t => exact ⟨ht, id, fun ha => absurd ha List.not_mem_nil⟩
  | cons h _ ih =>
    obtain ⟨hv, hkeep, hreach⟩ := hstep _ List.mem_cons_self _ _ ht h
    obtain ⟨hu, hrest, hlater⟩ := ih (fun a' ha => hstep a' (List.mem_cons_of_mem _ ha)) hv
    refine ⟨hu, fun hq => hrest (hkeep hq), fun ha => ?_⟩
    rcases List.mem_cons.mp ha with rfl | ha
    · exact hrest (hreach rfl)
    · exact hlater ha

end Through

theorem through_of_buildFiles (ha : (buildFiles b script forced time t ps).abort = none)
    (hf : ∀ r ∈ (buildFiles b script forced time t ps).result, r.failed = false) :
    Through (Makes b script forced time) ps t (buildFiles b script forced time t ps).tree := by
  induction ps generalizing t with
  | nil => exact .nil t
  | cons p ps ih =>
    obtain ⟨u, r, hr, hok, ha, hf, hrun⟩ := buildFiles_cons_of_ok ha hf
    rw [hrun]
    exact .cons ⟨r, hr, hok⟩ (ih ha hf)

def MakesDirectory (b : Plan) (forced : Bool) (pattern : Option Text) (time : Int) (d : Path)
    (t u : FileTree) : Prop :=
  ∃ name script files, b.scriptName = some name ∧ loadScript t d name = .ok script ∧
    b.filesOf t d pattern = .ok files ∧ Through (Makes b script forced time) files t u

theorem makesDirectory_of_ok (ha : (buildDirectory b t forced pattern time d).abort = none)
    (hok : (buildDirectory b t forced pattern time d).result.ok = true) :
    MakesDirectory b forced pattern time d t (buildDirectory b t forced pattern time d).tree := by
  obtain ⟨name, script, files, hn, hs, hf, hend, hok, hr⟩ := buildDirectory_of_ok ha hok
  rw [hr]
  exact ⟨name, script, files, hn, hs, hf, through_of_buildFiles hend hok⟩

theorem through_of_buildDirectories
    (ha : (buildDirectories b forced pattern time t ds).abort = none)
    (hok : ∀ r ∈ (buildDirectories b forced pattern time t ds).result, r.ok = true) :
    Through (MakesDirectory b forced pattern time) ds t
      (buildDirectories b forced pattern time t ds).tree := by
  induction ds generalizing t with
  | nil => exact .nil t
  | cons d ds ih =>
    have hfirst : (buildDirectory b t forced pattern time d).abort = none → _ → _ :=
      makesDirectory_of_ok
    obtain ⟨u, r, hr, ha, heq⟩ := buildDirectories_cons ha
    rw [hr] at hfirst
    rw [heq] at hok ⊢
    rw [List.forall_mem_cons] at hok
    exact Through.cons (hfirst rfl hok.1) (ih ha hok.2)

inductive Runs (b : Plan) (time : Int) (t : FileTree) : FileTree → Prop
  | all (forced : Bool) (pattern : Option Text) :
      Runs b time t (buildAll b t forced pattern time).tree
  | alone {d : Path} (hd : InSolutions b d) (forced : Bool) (pattern : Option Text) :
      Runs b time t (buildDirectory b t forced pattern time d).tree

inductive Passes (b : Plan) (forced : Bool) (pattern : Option Text) (time : Int) (t : FileTree) :
    List Path → FileTree → Prop
  | all {ds : List Path} (he : b.exercises t pattern = .ok ds)
      (ha : (buildAll b t forced pattern time).abort = none)
      (hok : (buildAll b t forced pattern time).result.ok = true) :
      Passes b forced pattern time t ds (buildAll b t forced pattern time).tree
  | alone {d : Path} (hd : InSolutions b d)
      (ha : (buildDirectory b t forced pattern time d).abort = none)
      (hok : (buildDirectory b t forced pattern time d).result.ok = true) :
      Passes b forced pattern time t [d] (buildDirectory b t forced pattern time d).tree

theorem Passes.runs (h : Passes b forced pattern time t ds u) : Runs b time t u := by
  cases h with
  | all he ha hok => exact .all forced pattern
  | alone hd ha hok => exact .alone hd forced pattern

theorem Passes.through (h : Passes b forced pattern time t ds u) :
    Through (MakesDirectory b forced pattern time) ds t u := by
  cases h with
  | all he ha hok =>
    rw [buildAll] at ha hok ⊢
    simp only [he] at ha hok ⊢
    rw [BuildReport.ok, List.all_eq_true] at hok
    exact through_of_buildDirectories ha hok
  | alone hd ha hok => exact .cons (makesDirectory_of_ok ha hok) (.nil _)

theorem Passes.inSolutions (h : Passes b forced pattern time t ds u) (ht : t.WellFormed)
    (hd : d ∈ ds) : InSolutions b d := by
  cases h with
  | all he ha hok => exact inSolutions_of_mem_exercises ht he hd
  | alone hd' ha hok =>
    rw [List.mem_singleton.mp hd]
    exact hd'

theorem source_of_mem (h : t.WellFormed) (hd : InSolutions b d)
    (hf : b.filesOf t d pattern = .ok ps) (hp : p ∈ ps) :
    ∃ rel, p = b.source rel ∧ rel ≠ [] ∧ ['.', '.'] ∉ rel := by
  obtain ⟨xs, hx, rfl⟩ := hd
  obtain ⟨rel, rfl, hne, hr, -⟩ := under_of_mem_filesOf h hf hp
  refine ⟨xs ++ rel, Path.under_under _ _ _, by simp [hne], ?_⟩
  rw [List.mem_append]
  exact fun hm => hm.elim hx hr

/-! ### Where practices come from -/

structure Origin (b : Plan) (rel : List Text) (content c : Utf8.Bytes) : Prop where
  bytes : b.editsScenes (b.source rel).extension = false →
    ∀ d, practiceBytes b none (b.source rel) content = some d → d = c
  sourceNull : (b.source rel).hasNull = false
  targetNull : (b.target rel).hasNull = false

structure Made (b : Plan) (t : FileTree) (now : Int) : Prop where
  wellFormed : t.WellFormed
  file : ∀ rel c τ, rel ≠ [] → ¬InPractices b t (t.site b.roots.solutions ++ rel) →
    t.get? (t.site b.roots.practices ++ rel) = some (.file c τ) →
    τ ≤ now ∧ ∀ content σ, t.get? (t.site b.roots.solutions ++ rel) = some (.file content σ) →
      τ ≤ σ ∨ Origin b rel content c

def Outdated (b : Plan) (t : FileTree) (now : Int) : Prop :=
  ∀ rel c τ, rel ≠ [] → t.get? (t.site b.roots.practices ++ rel) = some (.file c τ) →
    τ ≤ now ∧ ∀ content σ, t.get? (t.site b.roots.solutions ++ rel) = some (.file content σ) → τ ≤ σ

theorem outdated_of_vacant (hv : t.Vacant (t.site b.roots.practices)) (now : Int) :
    Outdated b t now := by
  intro rel c τ hne hg
  rw [hv rel hne] at hg
  cases hg

namespace Made

theorem of_outdated (h : t.WellFormed) (ho : Outdated b t now) : Made b t now := by
  refine ⟨h, fun rel c τ hne _ hg => ?_⟩
  obtain ⟨hτ, hold⟩ := ho rel c τ hne hg
  exact ⟨hτ, fun content σ hs => .inl (hold content σ hs)⟩

theorem wait {later : Int} (h : Made b t now) (hl : now ≤ later) : Made b t later := by
  refine ⟨h.wellFormed, fun rel c τ hne hout hg => ?_⟩
  obtain ⟨hτ, horigin⟩ := h.file rel c τ hne hout hg
  exact ⟨Int.le_trans hτ hl, horigin⟩

theorem practices {S : Location → Prop} (h : Made b t now) (hx : t.Confined u S)
    (hs : ∀ l, S l → InPractices b t l)
    (hnew : ∀ rel c τ, S (t.site b.roots.practices ++ rel) →
      u.get? (t.site b.roots.practices ++ rel) = some (.file c τ) → τ ≤ now ∧
      ∀ content σ, t.get? (t.site b.roots.solutions ++ rel) = some (.file content σ) →
        Origin b rel content c) : Made b u now := by
  refine ⟨hx.wellFormed, fun rel c τ hne hout hg => ?_⟩
  rw [inPractices_congr hx.place, FileTree.site_congr hx.place] at hout
  rw [FileTree.site_congr hx.place] at hg
  have hsolution : ∀ content σ, u.get? (u.site b.roots.solutions ++ rel) =
      some (.file content σ) ↔ t.get? (t.site b.roots.solutions ++ rel) =
      some (.file content σ) := by
    intro content σ
    rw [FileTree.site_congr hx.place]
    exact hx.file_iff fun hin => hout (hs _ hin)
  simp only [hsolution]
  by_cases hin : S (t.site b.roots.practices ++ rel)
  · obtain ⟨hτ, horigin⟩ := hnew rel c τ hin hg
    exact ⟨hτ, fun content σ hg' => .inr (horigin content σ hg')⟩
  · exact h.file rel c τ hne hout ((hx.file_iff hin).mp hg)

theorem buildFile (h : Made b t now) (script : Option SceneScript) (forced : Bool)
    (hr : ['.', '.'] ∉ rel) :
    Made b (Build.buildFile b t script forced (b.source rel) now).tree now := by
  have hx := buildFile_source_confined h.wellFormed b script forced hr now
  have hpre : ∀ l, l = t.site b.roots.practices ++ rel → InPractices b t l := by
    rintro l rfl
    exact List.prefix_append _ _
  rw [Build.buildFile, practiceOf_source] at hx ⊢
  simp only at hx ⊢
  split at hx
  · next hup =>
    rw [if_pos hup]
    exact h
  · next hup =>
    rw [if_neg hup]
    rcases regenerate_leaves h.wellFormed b script (b.source rel) (b.target rel) now with
      hnone | ⟨content, c, hmade, hbytes⟩
    · exact h.practices hnone (fun _ hl => hl.elim) fun _ _ _ hl => hl.elim
    · refine h.practices hx hpre fun rel' c' τ hrel hg => ?_
      obtain rfl := List.append_cancel_left hrel
      have hwritten := hmade.written
      obtain ⟨σ, hs⟩ := hmade.solution
      rw [site_target b t hr, hg] at hwritten
      rw [site_source b t hr] at hs
      obtain ⟨rfl, rfl⟩ := Entry.file.inj (Option.some.inj hwritten)
      refine ⟨Int.le_refl _, fun content' σ' hs' => ⟨fun hscene => ?_, hmade.sourceNull,
        hmade.targetNull⟩⟩
      obtain ⟨rfl, -⟩ := Entry.file.inj (Option.some.inj (hs.symm.trans hs'))
      rw [← practiceBytes_of_not_scene script hscene]
      exact hbytes

theorem buildDirectory (h : Made b t now) (hd : InSolutions b d) (forced : Bool)
    (pattern : Option Text) : Made b (Build.buildDirectory b t forced pattern now d).tree now := by
  refine buildDirectory_preserves (P := fun x => Made b x now)
    (fun files hf p hp script u hu => ?_) h
  obtain ⟨rel, rfl, -, hr⟩ := source_of_mem h.wellFormed hd hf hp
  exact hu.buildFile script forced hr

theorem runs (h : Made b t now) (hr : Runs b now t u) :
    Made b u now ∧ t.Confined u (InPractices b t) := by
  cases hr with
  | all forced pattern =>
    refine ⟨?_, buildAll_confined h.wellFormed b forced pattern now⟩
    refine buildAll_preserves (P := fun x => Made b x now) (fun ds he d hd x hx => ?_) h
    exact hx.buildDirectory (inSolutions_of_mem_exercises h.wellFormed he hd) forced pattern
  | alone hd forced pattern =>
    exact ⟨h.buildDirectory hd forced pattern,
      buildDirectory_confined h.wellFormed b forced pattern now hd⟩

theorem makes (h : Made b v now) (hx : t.Confined v (InPractices b t))
    (hr : ['.', '.'] ∉ rel) (hm : Makes b script forced now (b.source rel) v w) :
    Made b w now ∧ t.Confined w (InPractices b t) := by
  rw [hm.tree]
  refine ⟨h.buildFile script forced hr, hx.trans ?_⟩
  apply (buildFile_source_confined h.wellFormed b script forced hr now).mono
  rintro l rfl
  rw [FileTree.site_congr hx.place]
  exact List.prefix_append _ _

theorem write (h : Made b t now) (hp : ¬InPractices b t (t.site p))
    (hm : t.ensureDirectories p.parent = (u, none)) (hw : u.writeBytes p content now = .ok v) :
    Made b v now := by
  have hu := h.wellFormed.ensureDirectories_confined (· = t.site p) p.parent
  rw [hm] at hu
  have hwrite := hu.wellFormed.writeBytes_confined hw
  rw [FileTree.site_congr hu.place] at hwrite
  have hx := hu.trans hwrite
  obtain ⟨l, hl, -, hwritten, -⟩ := FileTree.written_at hw
  obtain rfl := hu.wellFormed.locate_eq_site hl
  rw [FileTree.site_congr hu.place] at hwritten
  refine ⟨hx.wellFormed, fun rel c τ hne hout hg => ?_⟩
  have hother : ¬t.site b.roots.practices ++ rel = t.site p := by
    intro he
    apply hp
    rw [← he]
    exact List.prefix_append _ _
  rw [inPractices_congr hx.place, FileTree.site_congr hx.place] at hout
  rw [FileTree.site_congr hx.place, hx.file_iff hother] at hg
  obtain ⟨hτ, horigin⟩ := h.file rel c τ hne hout hg
  refine ⟨hτ, fun content' σ hs => ?_⟩
  rw [FileTree.site_congr hx.place] at hs
  by_cases hsame : t.site b.roots.solutions ++ rel = t.site p
  -- a solution that was just written is not older than any practice
  · rw [hsame, hwritten] at hs
    obtain ⟨-, rfl⟩ := Entry.file.inj (Option.some.inj hs)
    exact .inl hτ
  · exact horigin content' σ ((hx.file_iff hsame).mp hs)

theorem remove (h : Made b t now) (hl : ¬l <+: t.place) : Made b (t.prune l) now := by
  refine ⟨h.wellFormed.prune hl, fun rel c τ hne hout hg => ?_⟩
  obtain ⟨hτ, horigin⟩ := h.file rel c τ hne hout (FileTree.file_of_prune hg)
  exact ⟨hτ, fun content σ hs => horigin content σ (FileTree.file_of_prune hs)⟩

end Made

/-! ### Runs -/

inductive Quiet (b : Plan) : FileTree × Int → FileTree × Int → Prop
  | wait {t : FileTree} {now later : Int} (h : now ≤ later) : Quiet b (t, now) (t, later)
  | build {t u : FileTree} {now : Int} (h : Runs b now t u) : Quiet b (t, now) (u, now)

/-- The same with edits: a file outside of the practices is written with the directories on the way
to it, or anything is removed but the place that paths start from. -/
inductive Event (b : Plan) : FileTree × Int → FileTree × Int → Prop
  | quiet {s s' : FileTree × Int} (h : Quiet b s s') : Event b s s'
  | write {t u v : FileTree} {now : Int} {p : Path} {content : Utf8.Bytes}
      (hp : ¬InPractices b t (t.site p)) (hm : t.ensureDirectories p.parent = (u, none))
      (hw : u.writeBytes p content now = .ok v) : Event b (t, now) (v, now)
  | remove {t : FileTree} {now : Int} {l : Location} (hl : ¬l <+: t.place) :
      Event b (t, now) (t.prune l, now)

theorem Quiet.made (hq : Quiet b s s') (h : Made b s.1 s.2) :
    Made b s'.1 s'.2 ∧ s.1.Confined s'.1 (InPractices b s.1) := by
  cases hq with
  | wait hl => exact ⟨h.wait hl, .refl h.wellFormed _⟩
  | build hr => exact h.runs hr

theorem quiet_made (hrun : ReflTransGen (Quiet b) s s') (h : Made b s.1 s.2) :
    Made b s'.1 s'.2 ∧ s.1.Confined s'.1 (InPractices b s.1) := by
  induction hrun with
  | refl => exact ⟨h, .refl h.wellFormed _⟩
  | tail _ hq ih =>
    obtain ⟨hmade, hx⟩ := ih
    obtain ⟨hnext, hy⟩ := hq.made hmade
    rw [inPractices_congr hx.place] at hy
    exact ⟨hnext, hx.trans hy⟩

theorem Event.made (he : Event b s s') (h : Made b s.1 s.2) : Made b s'.1 s'.2 := by
  cases he with
  | quiet hq => exact (hq.made h).1
  | write hp hm hw => exact h.write hp hm hw
  | remove hl => exact h.remove hl

theorem run_made (hrun : ReflTransGen (Event b) s s') (h : Made b s.1 s.2) :
    Made b s'.1 s'.2 := by
  induction hrun with
  | refl => exact h
  | tail _ he ih => exact he.made ih

end Coursework.Build
