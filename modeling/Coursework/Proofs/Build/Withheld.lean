import Coursework.Proofs.Text.Pieces
import Coursework.Proofs.Build.Current
import Coursework.Proofs.Build.Independence

namespace Coursework

namespace Path

structure IsFileName (w : Text) : Prop where
  part : IsPart w
  up : w ≠ ['.', '.']

theorem IsFileName.ofText {w : Text} (h : IsFileName w) : Path.ofText w = ⟨.here, [w]⟩ := by
  obtain ⟨⟨hne, hdot, hslash⟩, -⟩ := h
  have hanchor : Anchor.ofText w = .here := by
    unfold Anchor.ofText
    split <;> first | rfl | simp at hslash
  have hparts : partsOf w = [w] := by
    rw [partsOf, Text.splitOn_of_not_mem hslash]
    simp [hne, hdot]
  rw [Path.ofText, hanchor, hparts]

end Path

namespace Build

open FileTree (landing_under)
open Relation (ReflTransGen)

variable {b : Plan} {t u : FileTree} {d : Path} {script : Option SceneScript} {forced : Bool}
  {pattern : Option Text} {time : Int} {rel xs : List Text} {name : Text} {ps ds : List Path}
  {files : List Path}

def Open (b : Plan) (l : Location) : Prop :=
  ∃ name, l.getLast? = some name ∧ Selection.excluded b.excludes.patterns name = false

theorem not_open (hx : Selection.excluded b.excludes.patterns name = true) (l : Location) :
    ¬Open b (l ++ [name]) := by
  rintro ⟨name', hl, hn⟩
  rw [List.getLast?_concat] at hl
  rw [← Option.some.inj hl, hx] at hn
  cases hn

inductive Builds (b : Plan) : FileTree → FileTree → Prop
  | one {t : FileTree} {d : Path} (hd : InSolutions b d) (forced : Bool) (pattern : Option Text)
      (time : Int) : Builds b t (buildDirectory b t forced pattern time d).tree
  | all (t : FileTree) (forced : Bool) (pattern : Option Text) (time : Int) :
      Builds b t (buildAll b t forced pattern time).tree

theorem buildDirectory_open (h : t.WellFormed) (hd : InSolutions b d) (forced : Bool)
    (pattern : Option Text) (time : Int) :
    t.Confined (buildDirectory b t forced pattern time d).tree (Open b) := by
  obtain ⟨_, -, -, hq⟩ := hd.practiceOf
  refine buildDirectory_preserves (P := fun u => t.Confined u (Open b))
    (fun files hf p hp script u hu => ?_) (.refl h _)
  obtain ⟨rel, rfl, hne, hn, hx, -⟩ := under_of_mem_filesOf h hf hp
  refine hu.trans ((buildFile_confined hu.wellFormed b script forced _ time).mono ?_)
  rintro l ⟨x, hx', rfl⟩
  obtain rfl := Except.ok.inj ((practiceOf_under hq rel).symm.trans hx')
  refine ⟨(⟨.here, rel⟩ : Path).name, ?_, hx⟩
  rw [FileTree.site_under _ _ hn, List.getLast?_append_of_ne_nil _ hne, Path.name,
    List.getLast?_eq_getLast_of_ne_nil hne, Option.getD_some]

theorem Builds.open (h : t.WellFormed) (hs : Builds b t u) : t.Confined u (Open b) := by
  cases hs with
  | one hd forced pattern time => exact buildDirectory_open h hd forced pattern time
  | all forced pattern time =>
    refine buildAll_preserves (P := fun u => t.Confined u (Open b))
      (fun ds he d hd u hu => ?_) (.refl h _)
    exact hu.trans (buildDirectory_open hu.wellFormed (inSolutions_of_mem_exercises h he hd) forced
      pattern time)

theorem Builds.run_open (h : t.WellFormed) (hs : ReflTransGen (Builds b) t u) :
    t.Confined u (Open b) := by
  induction hs with
  | refl => exact .refl h _
  | tail _ hs ih => exact ih.trans (hs.open ih.wellFormed)

theorem buildFile_present (h : t.WellFormed) (hb : Plan.Separate b.roots)
    (hn : ['.', '.'] ∉ rel) {r : FileResult}
    (hr : buildFile b t script forced (b.source rel) time = ⟨u, .ok r⟩) (hf : r.failed = false) :
    ∃ e, u.get? (t.landing (b.target rel)) = some e := by
  have htarget := hb.target hn
  rw [buildFile, practiceOf_source] at hr
  simp only at hr
  split at hr
  · next hup =>
    obtain ⟨-, hpresent, -⟩ := upToDate_iff.mp hup
    rw [FileTree.hasPath, h.entry_eq htarget] at hpresent
    rw [← (Done.mk.inj hr).1]
    exact Option.isSome_iff_exists.mp hpresent
  · obtain ⟨x, content, c, hx, -, -, hw⟩ := regenerate_ok h htarget hr hf
    exact ⟨_, (hx.wrote htarget hw).get?_self⟩

theorem buildFiles_keep_present (h : t.WellFormed) (hb : Plan.Separate b.roots)
    (hps : ∀ p ∈ ps, ∃ rel, p = b.source rel ∧ ['.', '.'] ∉ rel ∧ rel ≠ []) {l : Location}
    (hl : ∃ e, t.get? l = some e) :
    ∃ e, (buildFiles b script forced time t ps).tree.get? l = some e := by
  have hx : t.Alters (buildFiles b script forced time t ps).tree (fun _ => True) fun _ => True := by
    refine buildFiles_preserves (P := fun u => t.Alters u (fun _ => True) fun _ => True)
      (fun u hu p hp => ?_) (.refl h _ _)
    obtain ⟨rel, rfl, hn, hne⟩ := hps p hp
    have hstep :=
      buildFile_alters (R := fun _ => True) hu.wellFormed hb trivial hn hne script forced time
    exact hu.trans (hstep.mono (fun _ _ => trivial) fun _ _ => trivial)
  exact hx.present hl

theorem buildFiles_present (h : t.WellFormed) (hb : Plan.Separate b.roots)
    (hps : ∀ p ∈ ps, ∃ rel, p = b.source rel ∧ ['.', '.'] ∉ rel ∧ rel ≠ [])
    (ha : (buildFiles b script forced time t ps).abort = none)
    (hf : ∀ r ∈ (buildFiles b script forced time t ps).result, r.failed = false)
    (hm : b.source rel ∈ ps) :
    ∃ e, (buildFiles b script forced time t ps).tree.get? (t.landing (b.target rel)) = some e := by
  induction ps generalizing t with
  | nil => cases hm
  | cons p ps ih =>
    rw [List.forall_mem_cons] at hps
    obtain ⟨⟨rel', rfl, hn, hne⟩, hps⟩ := hps
    have hx := buildFile_alters (R := fun _ => True) h hb trivial hn hne script forced time
    obtain ⟨u, r, hr, hok, ha, hf, hrun⟩ := buildFiles_cons_of_ok ha hf
    rw [hr] at hx
    rw [hrun]
    rcases List.mem_cons.mp hm with he | hm
    · rw [source_inj.mp he]
      exact buildFiles_keep_present hx.wellFormed hb hps (buildFile_present h hb hn hr hok)
    · rw [← FileTree.landing_congr hx.place]
      exact ih hx.wellFormed hps ha hf hm

theorem not_directory_of_alters (h : t.WellFormed) {R : List Text → Prop}
    (hR : ∀ rel, R rel → Solution b t d rel) (hr : R rel)
    (hx : t.Alters u (Passed b t R) (Filled b t R))
    (hfree : t.get? (t.landing (b.target rel)) ≠ some .directory) :
    u.get? (t.landing (b.target rel)) ≠ some .directory := by
  intro hd
  rcases hx.get? (t.landing (b.target rel)) with hg | ⟨⟨-, rel', hr', hl⟩, -⟩ | ⟨-, -, c, τ, hg⟩
  · exact hfree (hg ▸ hd)
  · obtain ⟨c, τ, hg⟩ := (hR rel hr).file
    obtain ⟨c', τ', hg'⟩ := (hR rel' hr').file
    rw [parent_target b (hR rel' hr').ne_nil, target_isPrefix_iff] at hl
    obtain ⟨k, hk⟩ := hl.trans (List.dropLast_prefix rel')
    have hnil : k ≠ [] := by
      rintro rfl
      have hlen := hl.length_le
      have hpos := List.length_pos_iff.mpr (hR rel' hr').ne_nil
      rw [← hk, List.append_nil, List.length_dropLast] at hlen
      rw [← hk, List.append_nil] at hpos
      omega
    rw [← hk, landing_source] at hg'
    rw [h.above hnil hg'] at hg
    cases hg
  · rw [hg] at hd
    cases hd

theorem buildDirectory_present (h : t.WellFormed) (hb : Plan.Separate b.roots)
    (hd : IsExercise b t d) (hr : Belongs b t pattern d rel)
    (ha : (buildDirectory b t forced pattern time d).abort = none)
    (hok : (buildDirectory b t forced pattern time d).result.ok = true) :
    ∃ e, (buildDirectory b t forced pattern time d).tree.get? (t.landing (b.target rel)) =
      some e := by
  obtain ⟨files, hf, hp⟩ := hr
  obtain ⟨name, script, files', -, -, hf', hend, hok, hr⟩ := buildDirectory_of_ok ha hok
  obtain rfl := Except.ok.inj (hf.symm.trans hf')
  rw [hr]
  refine buildFiles_present h hb (fun p hp => ?_) hend hok hp
  obtain ⟨rel, rfl, hs⟩ := solution_of_mem h hb hd hf hp
  exact ⟨rel, rfl, hs.descends, hs.ne_nil⟩

theorem buildDirectory_publishes (h : t.WellFormed) (hb : Plan.Separate b.roots)
    (hd : IsExercise b t d) (hr : Belongs b t pattern d rel)
    (hfree : t.get? (t.landing (b.target rel)) ≠ some .directory)
    (ha : (buildDirectory b t forced pattern time d).abort = none)
    (hok : (buildDirectory b t forced pattern time d).result.ok = true) :
    ∃ c τ, (buildDirectory b t forced pattern time d).tree.get? (t.landing (b.target rel)) =
      some (.file c τ) := by
  have hnot := not_directory_of_alters h (fun _ hr => hr.solution h hb hd) hr
    (buildDirectory_alters h hb hd forced pattern time) hfree
  obtain ⟨e, he⟩ := buildDirectory_present h hb hd hr ha hok
  cases e with
  | directory => exact absurd he hnot
  | file c τ => exact ⟨c, τ, he⟩

theorem Belongs.below (h : t.WellFormed) (hb : Plan.Separate b.roots) (hd : InSolutions b d)
    (hr : Belongs b t pattern d rel) : Below b t d (t.landing (b.target rel)) := by
  obtain ⟨files, hf, hp⟩ := hr
  obtain ⟨xs, hxs, rfl, hq⟩ := hd.practiceOf
  obtain ⟨ys, hys, hne, -, -, hlen⟩ := under_of_mem_filesOf h hf hp
  rw [Plan.source, Plan.source, Path.under_under] at hys
  obtain rfl := source_inj.mp hys
  refine ⟨b.target xs, ys, hq, hne, hlen, ?_⟩
  rw [h.site_eq_landing (hb.target hxs), Plan.target, Plan.target, ← landing_under,
    Path.under_under]

theorem buildAll_publishes (h : t.WellFormed) (hb : Plan.Separate b.roots)
    (he : b.exercises t pattern = .ok ds) (haloof : ∀ e ∈ ds, Aloof b t (b.scriptIn e))
    (hd : d ∈ ds) (hr : Belongs b t pattern d rel)
    (hfree : t.get? (t.landing (b.target rel)) ≠ some .directory)
    (ha : (buildAll b t forced pattern time).abort = none)
    (hok : (buildAll b t forced pattern time).result.ok = true) :
    ∃ c τ, (buildAll b t forced pattern time).tree.get? (t.landing (b.target rel)) =
      some (.file c τ) := by
  have hex := isExercise_of_mem h hb he hd
  obtain ⟨r, hmem, halone⟩ := exists_of_forall₂ (buildAll_alone h hb he haloof ha) hd
  have hone : (buildDirectory b t forced pattern time d).result.ok = true := by
    rw [← halone.result]
    exact List.all_eq_true.mp hok r hmem
  obtain ⟨c, τ, hg⟩ := buildDirectory_publishes h hb hex hr hfree halone.abort hone
  exact ⟨c, τ, (halone.files _ (hr.below h hb (hex.inSolutions h)) c τ).mpr hg⟩

theorem Plan.Separate.layout (hb : Plan.Separate b.roots) (hn : b.scriptName = some name)
    (hname : Path.IsFileName name) : b.Layout := by
  have hscript : Path.ofText (b.scriptName.getD []) = ⟨.here, [name]⟩ := by
    rw [hn, Option.getD_some, hname.ofText]
  refine ⟨hb, ?_, .inl ?_⟩
  · rw [hscript, Path.Descends, List.mem_singleton]
    exact Ne.symm hname.up
  · rw [hscript]

theorem scriptIn_source (hn : b.scriptName = some name) (hname : Path.IsFileName name) :
    b.scriptIn (b.source xs) = b.source (xs ++ [name]) := by
  rw [Plan.scriptIn, hn, Option.getD_some, hname.ofText]
  exact Path.under_under _ _ _

theorem belongs_of_loadScript (h : t.WellFormed) (hb : Plan.Separate b.roots)
    (hn : b.scriptName = some name) (hname : Path.IsFileName name)
    (hd : IsExercise b t (b.source xs)) {s : SceneScript}
    (hs : loadScript t (b.source xs) name = .ok (some s))
    (hx : Selection.excluded b.excludes.patterns name = false)
    (ha : (buildDirectory b t forced none time (b.source xs)).abort = none) :
    Belongs b t none (b.source xs) (xs ++ [name]) := by
  obtain ⟨c, τ, he⟩ := file_of_loadScript hs
  have hsource : b.source xs ++ Path.ofText name = b.source (xs ++ [name]) := by
    rw [← scriptIn_source hn hname, Plan.scriptIn, hn, Option.getD_some]
  have hdesc : (b.source (xs ++ [name])).Descends := by
    have hlayout := hb.layout hn hname
    obtain ⟨ys, hys, hxs⟩ := hd.inSolutions h
    obtain rfl := source_inj.mp hxs
    rw [← scriptIn_source hn hname]
    exact hlayout.scriptIn hys
  rw [hsource, h.entry_eq hdesc] at he
  cases hf : b.filesOf t (b.source xs) none with
  | error e => simp [buildDirectory, hn, buildWithScript, hs, hf] at ha
  | ok files =>
    refine ⟨files, hf, ?_⟩
    obtain ⟨rfl, -⟩ := scanWith_ok hf
    refine (mem_scan_iff h (hd.descends h hb)).mpr ⟨[name], ?_, ⟨c, τ, ?_⟩, ?_, ?_, ?_⟩
    · exact (Path.under_under _ _ _).symm
    · rwa [← landing_under, Plan.source, Path.under_under]
    · exact .inr rfl
    · exact List.cons_ne_nil _ _
    · simp [Selection.selects, Selection.picks?, Path.name, hx]

/-- No build writes the practice of a script whose name is excluded. If the name is not excluded,
every build of its exercise that succeeds leaves one. The script itself, when it is run, turns
scenes into scenes and writes no file. -/
theorem script_withheld (h : t.WellFormed) (hn : b.scriptName = some name)
    (hname : Path.IsFileName name) (hd : InSolutions b d) {p : Path}
    (hp : b.roots.practiceOf (b.scriptIn d) = .ok p) :
    (Selection.excluded b.excludes.patterns name = true →
      ∀ u, ReflTransGen (Builds b) t u → ∀ c τ,
        u.get? (t.site p) = some (.file c τ) ↔ t.get? (t.site p) = some (.file c τ)) ∧
    (Selection.excluded b.excludes.patterns name = false →
      Plan.Separate b.roots → IsExercise b t d →
      ∀ s, loadScript t d name = .ok (some s) → t.get? (t.site p) ≠ some .directory →
      ∀ forced time,
      ((buildDirectory b t forced none time d).abort = none →
        (buildDirectory b t forced none time d).result.ok = true →
        ∃ c τ, (buildDirectory b t forced none time d).tree.get? (t.site p) =
          some (.file c τ)) ∧
      ∀ ds, b.exercises t none = .ok ds → d ∈ ds →
        (buildAll b t forced none time).abort = none →
        (buildAll b t forced none time).result.ok = true →
        ∃ c τ, (buildAll b t forced none time).tree.get? (t.site p) = some (.file c τ)) := by
  obtain ⟨xs, hxs, rfl⟩ := hd
  rw [scriptIn_source hn hname, practiceOf_source] at hp
  obtain rfl := Except.ok.inj hp
  have hup : ['.', '.'] ∉ [name] := by simpa using Ne.symm hname.up
  have hsite : t.site (b.target (xs ++ [name])) = t.site (b.target xs) ++ [name] := by
    rw [← FileTree.site_under _ _ hup, Plan.target, Plan.target, Path.under_under]
  constructor
  · intro hx u hu c τ
    rw [hsite]
    exact (Builds.run_open h hu).spares _ c τ (not_open hx _)
  · intro hx hb hd s hs hfree forced time
    -- the script is one of the files of its exercise, and those are published
    have hland : t.site (b.target (xs ++ [name])) = t.landing (b.target (xs ++ [name])) := by
      apply h.site_eq_landing
      apply hb.target
      rw [List.mem_append, not_or]
      exact ⟨hxs, hup⟩
    rw [hland] at hfree ⊢
    have hbelongs : (buildDirectory b t forced none time (b.source xs)).abort = none →
        Belongs b t none (b.source xs) (xs ++ [name]) :=
      belongs_of_loadScript h hb hn hname hd hs hx
    constructor
    · exact fun ha => buildDirectory_publishes h hb hd (hbelongs ha) hfree ha
    · intro ds he hmem ha
      have haloof : ∀ e ∈ ds, Aloof b t (b.scriptIn e) := fun e hm =>
        (hb.layout hn hname).aloof h ((isExercise_of_mem h hb he hm).inSolutions h)
      obtain ⟨_, -, halone⟩ := exists_of_forall₂ (buildAll_alone h hb he haloof ha) hmem
      exact buildAll_publishes h hb he haloof hmem (hbelongs halone.abort) hfree ha

def namedPlan : Plan where
  roots := Roots.ofNames (Path.ofText "/w") "s" "p" "res://"
  scriptName := some "edit.py"

def namedTree : FileTree where
  entries := [
    (["w"], .directory),
    (["w", "s"], .directory),
    (["w", "s", "l"], .directory),
    (["w", "s", "l", "edit.py"], .file [] 5)]

def namedBuild : Run BuildReport := buildAll namedPlan namedTree false none 6

theorem script_withheld_named : namedTree.WellFormed ∧ Plan.Separate namedPlan.roots ∧
    namedBuild.abort = none ∧ namedBuild.result.ok = true ∧
    ∃ c τ, namedBuild.tree.get? ["w", "p", "l", "edit.py"] = some (.file c τ) := by
  have hwf : namedTree.WellFormed := by decide +kernel
  have hb : Plan.Separate namedPlan.roots :=
    separate_ofNames (by decide) (by decide) (by decide) (by decide) (by decide) (by decide)
      (by decide)
  have hd : IsExercise namedPlan namedTree (namedPlan.source ["l"]) :=
    .inr ⟨"l", rfl, by decide +kernel⟩
  have hds : namedPlan.exercises namedTree none = .ok [namedPlan.source ["l"]] := by decide +kernel
  have hbuilt : namedBuild.abort = none ∧ namedBuild.result.ok = true := by decide +kernel
  have hs : loadScript namedTree (namedPlan.source ["l"]) "edit.py" =
      .ok (some ⟨Path.ofText "/w/s/l/edit.py", 5, []⟩) := by decide +kernel
  have hp : namedPlan.roots.practiceOf (namedPlan.scriptIn (namedPlan.source ["l"])) =
      .ok (Path.ofText "/w/p/l/edit.py") := by decide +kernel
  have hname : Path.IsFileName "edit.py" := ⟨⟨by decide, by decide, by decide⟩, by decide⟩
  have hleak := (script_withheld hwf rfl hname (hd.inSolutions hwf) hp).2 (by decide +kernel) hb hd
    _ hs (by decide +kernel) false 6
  exact ⟨hwf, hb, hbuilt.1, hbuilt.2,
    hleak.2 _ hds List.mem_cons_self hbuilt.1 hbuilt.2⟩

theorem script_published : namedPlan.excludes.patterns = Selection.defaultExcludes ∧
    loadScript namedTree (namedPlan.source ["l"]) "edit.py" =
      .ok (some ⟨Path.ofText "/w/s/l/edit.py", 5, []⟩) ∧
    namedBuild.abort = none ∧ namedTree.get? ["w", "p", "l", "edit.py"] = none ∧
    namedBuild.tree.get? ["w", "p", "l", "edit.py"] = some (.file [] 6) := by
  refine ⟨?_, ?_, ?_, ?_, ?_⟩ <;> decide +kernel

end Build

end Coursework
