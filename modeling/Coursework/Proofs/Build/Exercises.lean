import Coursework.Proofs.Build.Current

namespace Coursework.Build

open FileTree (landing_under)

variable {b : Plan} {t u v : FileTree} {script : Option SceneScript} {forced : Bool}
  {pattern : Option Text} {now : Int} {d p : Path} {ps ds : List Path} {c : Utf8.Bytes}

def Listed (b : Plan) (t : FileTree) (d : Path) (pattern : Option Text)
    (P : List Text → Prop) : Prop :=
  ∃ name script files, b.scriptName = some name ∧ loadScript t d name = .ok script ∧
    b.filesOf t d pattern = .ok files ∧ ∀ rel, b.source rel ∈ files → P rel

theorem Listed.imp {P Q : List Text → Prop} (h : ∀ rel, P rel → Q rel)
    (hl : Listed b t d pattern P) : Listed b t d pattern Q := by
  obtain ⟨name, script, files, hn, hs, hf, hp⟩ := hl
  exact ⟨name, script, files, hn, hs, hf, fun rel hm => h rel (hp rel hm)⟩

theorem Listed.and {P Q : List Text → Prop} (hp : Listed b t d pattern P)
    (hq : Listed b t d pattern Q) : Listed b t d pattern fun rel => P rel ∧ Q rel := by
  obtain ⟨name, script, files, hn, hs, hf, hp⟩ := hp
  obtain ⟨-, -, files', -, -, hf', hq⟩ := hq
  obtain rfl := Except.ok.inj (hf.symm.trans hf')
  exact ⟨name, script, files, hn, hs, hf, fun rel hm => ⟨hp rel hm, hq rel hm⟩⟩

theorem Kept.listed (h : Kept b t u) (ht : t.WellFormed) (hu : u.WellFormed) (hb : b.Layout)
    (hd : IsExercise b t d) {P : List Text → Prop} (hl : Listed b t d pattern P) :
    Listed b u d pattern P := by
  obtain ⟨name, script, files, hn, hs, hf, hp⟩ := hl
  obtain ⟨files', hf', hmem⟩ := h.filesOf ht hu hb hd hf
  refine ⟨name, script, files', hn, ?_, hf', fun rel hm => hp rel ((hmem _).mp hm)⟩
  have hxs : ∃ xs, ['.', '.'] ∉ xs ∧ d = b.source xs := by
    rcases hd with rfl | ⟨x, rfl, hg⟩
    · exact ⟨[], List.not_mem_nil, rfl⟩
    · exact ⟨[x], not_mem_of_source ht hg, rfl⟩
  obtain ⟨xs, hx, rfl⟩ := hxs
  have hload := (h.script xs hx).load
  rw [hn, Option.getD_some] at hload
  exact hload.trans hs

theorem buildable_of_mem (ht : t.WellFormed) (hb : b.Layout) (hd : IsExercise b t d) {name : Text}
    {files : List Path} (hn : b.scriptName = some name) (hs : loadScript t d name = .ok script)
    (hf : b.filesOf t d pattern = .ok files) (hp : p ∈ files) :
    ∃ rel, p = b.source rel ∧ Buildable b t script rel := by
  obtain ⟨rel, content, σ, rfl, hhome, hne, hdesc, hg⟩ := source_of_mem_filesOf ht hb.toSeparate hd hf hp
  refine ⟨rel, rfl, hne, hdesc, ⟨content, σ, hg⟩, ?_⟩
  rw [scriptOf, hhome, hn, Option.getD_some, hs]

theorem Current.buildFiles (h : Current b t now) (hb : b.Layout)
    (hps : ∀ p ∈ ps, ∃ rel, p = b.source rel ∧ Buildable b t script rel)
    (ha : (buildFiles b script forced now t ps).abort = none)
    (hf : ∀ r ∈ (buildFiles b script forced now t ps).result, r.failed = false) :
    Built b t (buildFiles b script forced now t ps).tree now ∧
      ∀ rel, b.source rel ∈ ps → Settled b (buildFiles b script forced now t ps).tree rel := by
  -- each file is built in a tree whose practices the files before it have kept current
  induction ps generalizing t with
  | nil => exact ⟨h.built, fun rel hm => absurd hm List.not_mem_nil⟩
  | cons p ps ih =>
    obtain ⟨rel, rfl, hs⟩ := hps _ List.mem_cons_self
    obtain ⟨u, r, hr, hok, ha, hf, hrun⟩ := buildFiles_cons_of_ok ha hf
    obtain ⟨hbuilt, hsettled⟩ := h.buildFile hb hs hr hok
    have hrest := ih hbuilt.current
      (fun p hp => (hps p (List.mem_cons_of_mem _ hp)).imp fun _ hq => ⟨hq.1,
        hbuilt.kept.buildable hq.2⟩) ha hf
    rw [hrun]
    refine ⟨hbuilt.trans hrest.1, fun rel' hm => ?_⟩
    rcases List.mem_cons.mp hm with hm | hm
    · rw [source_inj.mp hm]
      exact hrest.1.settled rel hsettled
    · exact hrest.2 rel' hm

theorem Built.listed (h : Built b t u now) (ht : t.WellFormed) (hb : b.Layout)
    (hd : IsExercise b t d) (hl : Listed b t d pattern (Settled b t)) :
    Listed b u d pattern (Settled b u) :=
  (h.kept.listed ht h.current.wellFormed hb hd hl).imp h.settled

theorem Current.buildDirectory (h : Current b t now) (hb : b.Layout) (hd : IsExercise b t d)
    (ha : (buildDirectory b t forced pattern now d).abort = none)
    (hok : (buildDirectory b t forced pattern now d).result.ok = true) :
    Built b t (buildDirectory b t forced pattern now d).tree now ∧
      Listed b (buildDirectory b t forced pattern now d).tree d pattern
        (Settled b (buildDirectory b t forced pattern now d).tree) := by
  obtain ⟨name, script, files, hn, hs, hf, hend, hok, hr⟩ := buildDirectory_of_ok ha hok
  obtain ⟨hbuilt, hsettled⟩ := h.buildFiles hb
    (fun p hp => buildable_of_mem h.wellFormed hb hd hn hs hf hp) hend hok
  have hl : Listed b t d pattern (Settled b (Build.buildFiles b script forced now t files).tree) :=
    ⟨name, script, files, hn, hs, hf, hsettled⟩
  rw [hr]
  exact ⟨hbuilt, hbuilt.kept.listed h.wellFormed hbuilt.current.wellFormed hb hd hl⟩

theorem Current.buildDirectories (h : Current b t now) (hb : b.Layout)
    (hds : ∀ d ∈ ds, IsExercise b t d)
    (ha : (buildDirectories b forced pattern now t ds).abort = none)
    (hok : ∀ r ∈ (buildDirectories b forced pattern now t ds).result, r.ok = true) :
    Built b t (buildDirectories b forced pattern now t ds).tree now ∧
      ∀ d ∈ ds, Listed b (buildDirectories b forced pattern now t ds).tree d pattern
        (Settled b (buildDirectories b forced pattern now t ds).tree) := by
  induction ds generalizing t with
  | nil => exact ⟨h.built, fun d hm => absurd hm List.not_mem_nil⟩
  | cons d ds ih =>
    have hd := hds d List.mem_cons_self
    obtain ⟨u, r, hr, ha, heq⟩ := buildDirectories_cons ha
    rw [heq] at hok ⊢
    rw [List.forall_mem_cons] at hok
    have habort : (Build.buildDirectory b t forced pattern now d).abort = none := by rw [hr]
    have hstep := h.buildDirectory hb hd habort
    rw [hr] at hstep
    obtain ⟨hbuilt, hlisted⟩ := hstep hok.1
    have hwf := hbuilt.current.wellFormed
    obtain ⟨hrest, hall⟩ := ih hbuilt.current
      (fun d hm => hbuilt.kept.isExercise (hds d (List.mem_cons_of_mem _ hm))) ha hok.2
    refine ⟨hbuilt.trans hrest, fun d' hm => ?_⟩
    rcases List.mem_cons.mp hm with rfl | hm
    · exact hrest.listed hwf hb (hbuilt.kept.isExercise hd) hlisted
    · exact hall d' hm

theorem Current.buildAll (h : Current b t now) (hb : b.Layout)
    (ha : (buildAll b t forced pattern now).abort = none)
    (hok : (buildAll b t forced pattern now).result.ok = true) :
    Built b t (buildAll b t forced pattern now).tree now ∧
      ∃ ds, b.exercises t pattern = .ok ds ∧
        ∀ d ∈ ds, Listed b (buildAll b t forced pattern now).tree d pattern
          (Settled b (buildAll b t forced pattern now).tree) := by
  rw [Build.buildAll] at ha hok ⊢
  cases he : b.exercises t pattern with
  | error e => simp [he] at ha
  | ok ds =>
    simp only [he] at ha hok ⊢
    rw [BuildReport.ok, List.all_eq_true] at hok
    obtain ⟨hbuilt, hall⟩ := h.buildDirectories hb
      (fun d hm => isExercise_of_mem h.wellFormed hb.toSeparate he hm) ha hok
    exact ⟨hbuilt, ds, rfl, hall⟩

theorem Current.ensureDirectories_target (h : Current b t now) (hb : b.Layout)
    (hroot : t.get? (t.landing b.roots.practices) = some .directory) {rel : List Text} {name : Text}
    (hs : Buildable b t script (rel ++ [name]))
    (hn : (b.target (rel ++ [name])).hasNull = false) :
    (t.ensureDirectories (b.target rel)).2 = none := by
  obtain ⟨content, σ, hsrc⟩ := hs.file
  have hdesc : ['.', '.'] ∉ rel := fun hm => hs.descends (List.mem_append_left _ hm)
  refine h.wellFormed.ensureDirectories_under (hb.target hdesc)
    (FileTree.hasNull_under hn (List.prefix_append _ _)) hroot fun m hm c τ hg => ?_
  obtain ⟨m', rfl⟩ := hm
  rw [← landing_under] at hg
  by_cases hnil : m = []
  · rw [hnil, Path.under_nil, hroot] at hg
    cases hg
  · obtain ⟨-, content', σ', hsrc', -⟩ := h.file m c τ hnil hg
    rw [List.append_assoc, landing_source] at hsrc
    rw [h.wellFormed.above (by simp) hsrc] at hsrc'
    cases hsrc'

theorem Current.buildFile_forced (h : Current b t now) (hb : b.Layout)
    (hroot : t.get? (t.landing b.roots.practices) = some .directory) {rel : List Text}
    (hs : Buildable b t script rel) (hf : Fresh b t rel c) :
    ∃ u r, Build.buildFile b t script true (b.source rel) now = ⟨u, .ok r⟩ ∧ r.failed = false := by
  obtain ⟨script', content, σ, hs', hsrc, hc, hsn, htn⟩ := hf
  obtain rfl := Except.ok.inj (hs.script.symm.trans hs')
  have hsd := hb.source hs.descends
  have htd := hb.target hs.descends
  obtain ⟨pre, name, rfl⟩ := (List.eq_nil_or_concat rel).resolve_left hs.ne_nil
  rw [List.concat_eq_append] at *
  have hparent : (b.target (pre ++ [name])).parent = b.target pre := Path.parent_under_concat _ _ _
  obtain ⟨hx, hd⟩ := h.wellFormed.ensureDirectories htd.parent
  have hnone := h.ensureDirectories_target hb hroot hs htn
  rw [hparent] at hx hd
  have hdir := hd hnone
  have hland := FileTree.landing_congr hx.place
  have hread : (t.ensureDirectories (b.target pre)).1.readBytes (b.source (pre ++ [name])) =
      .ok content := by
    refine (hx.wellFormed.readBytes_eq_ok_iff hsd).mpr ⟨hsn, σ, ?_⟩
    rw [hland]
    exact hx.get?_of_eq_some hsrc
  have hfree : (t.ensureDirectories (b.target pre)).1.get? (t.landing (b.target (pre ++ [name]))) ≠
      some .directory := by
    intro hg
    rcases hx.get? (t.landing (b.target (pre ++ [name]))) with hm | ⟨-, -, hm⟩
    · rw [hm] at hg
      rw [h.directory _ hs.ne_nil hg] at hsrc
      cases hsrc
    · have hlen := ((target_isPrefix_iff b t).mp hm).length_le
      simp only [List.length_append, List.length_singleton] at hlen
      omega
  have hwrite : (t.ensureDirectories (b.target pre)).1.writeBytes (b.target (pre ++ [name])) c now =
      .ok _ := (hx.wellFormed.writeBytes_eq_ok_iff htd).mpr
    ⟨htn, fun _ => by rw [hland, hparent]; exact hdir, by rw [hland]; exact hfree, rfl⟩
  have hsame := hb.not_same hx.wellFormed hs.descends hs.descends
  have hensure : t.ensureDirectories (b.target (pre ++ [name])).parent =
      ((t.ensureDirectories (b.target pre)).1, none) := by
    rw [hparent, ← hnone]
  obtain ⟨w, r, hr, hok⟩ := regenerate_of_bytes hensure hread hc hwrite hsame
  refine ⟨w, r, ?_, hok⟩
  rw [Build.buildFile, practiceOf_source]
  simp only [upToDate, Bool.not_true, Bool.false_and, Bool.false_eq_true, if_false]
  exact hr

def Makable (b : Plan) (t : FileTree) (rel : List Text) : Prop :=
  t.get? (t.landing b.roots.practices) = some .directory ∧ ∃ c, Fresh b t rel c

theorem Makable.not_mem (h : t.WellFormed) {rel : List Text} (hm : Makable b t rel) :
    ['.', '.'] ∉ rel := by
  obtain ⟨-, -, -, content, σ, -, hg, -⟩ := hm
  exact not_mem_of_source h hg

theorem Built.makable (h : Built b t u now) (ht : t.WellFormed) {rel : List Text}
    (hm : Makable b t rel) : Makable b u rel := by
  have hr := hm.not_mem ht
  obtain ⟨hroot, c, hf⟩ := hm
  refine ⟨?_, c, h.kept.fresh hr hf⟩
  rw [h.kept.landing]
  exact h.directory _ hroot

theorem Current.buildFiles_forced (h : Current b t now) (hb : b.Layout)
    (hps : ∀ p ∈ ps, ∃ rel, p = b.source rel ∧ Buildable b t script rel ∧ Makable b t rel) :
    (Build.buildFiles b script true now t ps).abort = none ∧
      ∀ r ∈ (Build.buildFiles b script true now t ps).result, r.failed = false := by
  induction ps generalizing t with
  | nil => exact ⟨rfl, fun r hr => absurd hr List.not_mem_nil⟩
  | cons p ps ih =>
    obtain ⟨rel, rfl, hs, hroot, c, hf⟩ := hps _ List.mem_cons_self
    obtain ⟨u, r, hr, hok⟩ := h.buildFile_forced hb hroot hs hf
    have hbuilt := (h.buildFile hb hs hr hok).1
    have hrest := ih hbuilt.current fun p hp => by
      obtain ⟨rel, rfl, hs, hm⟩ := hps p (List.mem_cons_of_mem _ hp)
      exact ⟨rel, rfl, hbuilt.kept.buildable hs,
        hbuilt.makable h.wellFormed hm⟩
    rw [Build.buildFiles, hr]
    simp only [hok, Bool.false_eq_true, if_false]
    refine ⟨hrest.1, fun r' hm => ?_⟩
    rcases List.mem_cons.mp hm with rfl | hm
    · exact hok
    · exact hrest.2 r' hm

theorem Current.buildDirectory_forced (h : Current b t now) (hb : b.Layout)
    (hd : IsExercise b t d) (hl : Listed b t d pattern (Makable b t)) :
    (Build.buildDirectory b t true pattern now d).abort = none ∧
      (Build.buildDirectory b t true pattern now d).result.ok = true := by
  obtain ⟨name, script, files, hn, hs, hf, hm⟩ := hl
  have hfiles := h.buildFiles_forced hb fun p hp => by
    obtain ⟨rel, rfl, hbuild⟩ := buildable_of_mem h.wellFormed hb hd hn hs hf hp
    exact ⟨rel, rfl, hbuild, hm rel hp⟩
  simp only [Build.buildDirectory, hn, buildWithScript, hs, hf]
  refine ⟨hfiles.1, ?_⟩
  rw [DirectoryResult.ok, Bool.not_eq_true', List.any_eq_false]
  exact fun r hr => Bool.eq_false_iff.mp (hfiles.2 r hr)

theorem Built.listed_makable (h : Built b t u now) (ht : t.WellFormed) (hb : b.Layout)
    (hd : IsExercise b t d) (hl : Listed b t d pattern (Makable b t)) :
    Listed b u d pattern (Makable b u) :=
  (h.kept.listed ht h.current.wellFormed hb hd hl).imp fun _ => h.makable ht

theorem Current.buildDirectories_forced (h : Current b t now) (hb : b.Layout)
    (hds : ∀ d ∈ ds, IsExercise b t d ∧ Listed b t d pattern (Makable b t)) :
    (Build.buildDirectories b true pattern now t ds).abort = none ∧
      ∀ r ∈ (Build.buildDirectories b true pattern now t ds).result, r.ok = true := by
  induction ds generalizing t with
  | nil => exact ⟨rfl, fun r hr => absurd hr List.not_mem_nil⟩
  | cons d ds ih =>
    obtain ⟨hd, hl⟩ := hds d List.mem_cons_self
    have hfirst := h.buildDirectory_forced hb hd hl
    have hbuilt := (h.buildDirectory hb hd hfirst.1 hfirst.2).1
    have hrest := ih hbuilt.current fun d' hm => by
      obtain ⟨hd', hl'⟩ := hds d' (List.mem_cons_of_mem _ hm)
      exact ⟨hbuilt.kept.isExercise hd', hbuilt.listed_makable h.wellFormed hb hd' hl'⟩
    rw [Build.buildDirectories]
    cases hr : Build.buildDirectory b t true pattern now d with
    | mk u r a =>
      rw [hr] at hfirst hrest
      obtain ⟨rfl, hok⟩ := hfirst
      refine ⟨hrest.1, fun r' hm => ?_⟩
      rcases List.mem_cons.mp hm with rfl | hm
      · exact hok
      · exact hrest.2 r' hm

theorem Current.buildAll_forced (h : Current b t now) (hb : b.Layout)
    (he : b.exercises t pattern = .ok ds) (hds : ∀ d ∈ ds, Listed b t d pattern (Makable b t)) :
    (Build.buildAll b t true pattern now).abort = none ∧
      (Build.buildAll b t true pattern now).result.ok = true := by
  obtain ⟨ha, hok⟩ := h.buildDirectories_forced hb fun d hm =>
    ⟨isExercise_of_mem h.wellFormed hb.toSeparate he hm, hds d hm⟩
  simp only [Build.buildAll, he]
  exact ⟨ha, List.all_eq_true.mpr hok⟩

end Coursework.Build
