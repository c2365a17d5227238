import Coursework.Proofs.Build.Made

namespace Coursework.Build

open Relation (ReflTransGen)

variable {b : Plan} {t u v w : FileTree} {script : Option SceneScript} {source target d p : Path}
  {forced : Bool} {pattern : Option Text} {now time : Int} {rel : List Text} {l : Location}
  {content c : Utf8.Bytes} {σ : Int} {ds ps : List Path} {name : Text}

/-! ### What a removed script leaves -/

theorem loadScript_removed (h : t.WellFormed) (hg : t.get? l = some (.file content time))
    (hl : t.locate (d ++ Path.ofText name) = .ok l) (hout : ¬InPractices b t l)
    (hx : (t.prune l).Confined u (InPractices b t)) : loadScript u d name = .ok none := by
  have hne : l ≠ [] := by
    rintro rfl
    cases hg
  have hlocate : u.locate (d ++ Path.ofText name) = .ok l := by
    apply FileTree.locate_mono (fun m hm => hx.directory m (h.directory_prune hg hm)) _ hl
    exact hx.place
  have hgone : (t.prune l).get? l = none := by
    rw [FileTree.get?_prune t hne, if_pos (List.prefix_refl l)]
  rw [loadScript, FileTree.entry, hlocate]
  simp only
  rcases hx.outside l hout with hu | ⟨-, hu⟩
  · rw [hu, hgone]
  · rw [hu]

/-! ### The files of a directory during builds -/

theorem filesOf_of_confined (h : t.WellFormed) (hdir : t.hasDirectory d = true)
    (hout : ∀ rel, ¬InPractices b t (t.site d ++ rel)) (hx : t.Confined u (InPractices b t)) :
    b.filesOf u d pattern = b.filesOf t d pattern := by
  obtain ⟨l, hl, -⟩ := FileTree.hasDirectory_eq_true_iff.mp hdir
  obtain rfl := h.locate_eq_site hl
  have hg : ∀ rel c τ, u.get? (t.site d ++ rel) = some (.file c τ) ↔
      t.get? (t.site d ++ rel) = some (.file c τ) := fun rel c τ => hx.file_iff (hout rel)
  apply filesOf_of_mem_scan h hx.wellFormed
  intro selected recursive p
  rw [mem_scan_located hx.wellFormed (hx.locate hl), mem_scan_located h hl]
  simp only [hg]

structure Found (b : Plan) (t : FileTree) (rel : List Text) (content : Utf8.Bytes) (σ : Int) :
    Prop where
  ne_nil : rel ≠ []
  descends : ['.', '.'] ∉ rel
  outside : ¬InPractices b t (t.site (b.source rel))
  located : t.locate (b.source rel) = .ok (t.site (b.source rel))
  file : t.get? (t.site (b.source rel)) = some (.file content σ)

theorem found_of_mem_filesOf (h : t.WellFormed) (hd : InSolutions b d)
    (hf : b.filesOf t d pattern = .ok ps) (hp : p ∈ ps) (hout : ¬InPractices b t (t.site p)) :
    ∃ rel content σ, p = b.source rel ∧ Found b t rel content σ := by
  obtain ⟨-, -, content, σ, -, -, hl, -, hg⟩ := located_of_mem_filesOf h hf hp
  obtain ⟨rel, rfl, hne, hr⟩ := source_of_mem h hd hf hp
  exact ⟨rel, content, σ, rfl, hne, hr, hout, hl, hg⟩

theorem Found.later (h : Found b t rel content σ) (hx : t.Confined u (InPractices b t)) :
    Found b u rel content σ := by
  have hsite := FileTree.site_congr hx.place (b.source rel)
  refine ⟨h.ne_nil, h.descends, ?_, ?_, ?_⟩
  · rw [inPractices_congr hx.place, hsite]
    exact h.outside
  · rw [hsite]
    exact hx.locate h.located
  · rw [hsite, hx.file_iff h.outside]
    exact h.file

theorem Found.entry (h : Found b t rel content σ) :
    t.entry (b.source rel) = some (.file content σ) :=
  FileTree.entry_eq_some_iff.mpr ⟨_, h.located, h.file⟩

theorem Found.mem_filesOf (h : Found b t rel content σ) (ht : t.WellFormed)
    (hx : t.Confined u (InPractices b t)) {qs : List Path} (hf : b.filesOf t d pattern = .ok ps)
    (hp : b.source rel ∈ ps) (hf' : b.filesOf u d pattern = .ok qs) : b.source rel ∈ qs := by
  obtain ⟨l, rel', -, -, hl, hrel, -, hsite, -⟩ := located_of_mem_filesOf ht hf hp
  obtain ⟨rfl, -⟩ := scanWith_ok hf
  obtain ⟨rfl, -⟩ := scanWith_ok hf'
  obtain ⟨rel'', hrel', -, hrest⟩ := (mem_scan_located ht hl).mp hp
  obtain rfl : rel'' = rel' := List.append_cancel_left (congrArg Path.parts (hrel'.symm.trans hrel))
  refine (mem_scan_located hx.wellFormed (hx.locate hl)).mpr ⟨rel'', hrel', ?_, hrest⟩
  have hfile := (h.later hx).file
  rw [FileTree.site_congr hx.place, hsite] at hfile
  exact ⟨content, σ, hfile⟩

theorem home_of_mem_filesOf (h : t.WellFormed) {xs : List Text} (hx : xs.length ≤ 1)
    (hf : b.filesOf t (b.source xs) pattern = .ok ps) (hp : b.source rel ∈ ps) :
    b.home rel = b.source xs := by
  obtain ⟨rel', hrel, hne, -, -, hlen⟩ := under_of_mem_filesOf h hf hp
  rw [Plan.source, Plan.source, Path.under_under, ← Plan.source, ← Plan.source] at hrel
  obtain rfl := source_inj.mp hrel
  exact home_append hx hne hlen

theorem Passes.disjoint (hb : Passes b forced pattern time t ds u) (h : t.WellFormed) {d' : Path}
    (hd : d ∈ ds) (hd' : d' ∈ ds) {files files' : List Path} (hv : v.WellFormed)
    (hw : w.WellFormed) (hf : b.filesOf v d pattern = .ok files) (hp : b.source rel ∈ files)
    (hf' : b.filesOf w d' pattern = .ok files') (hp' : b.source rel ∈ files') : d' = d := by
  cases hb with
  | all he ha hok =>
    obtain ⟨xs, rfl, hxs, -⟩ := source_of_mem_exercises h he hd
    obtain ⟨ys, rfl, hys, -⟩ := source_of_mem_exercises h he hd'
    exact (home_of_mem_filesOf hw hys hf' hp').symm.trans (home_of_mem_filesOf hv hxs hf hp)
  | alone hd'' ha hok =>
    rw [List.mem_singleton.mp hd, List.mem_singleton.mp hd']

/-! ### One practice in a build -/

structure Unscripted (b : Plan) (rel : List Text) (content : Utf8.Bytes) (t : FileTree) :
    Prop where
  sourceNull : (b.source rel).hasNull = false
  practice : ∃ c, practiceBytes b none (b.source rel) content = some c ∧
    t.readBytes (b.target rel) = .ok c

/-- Whether a practice scene stays as it was because it is newer than its solution. -/
structure Overlooked (b : Plan) (t u : FileTree) (p : Path) : Prop where
  scene : b.editsScenes p.extension = true
  kept : ∃ q content c σ τ, b.roots.practiceOf p = .ok q ∧
    t.get? (t.site p) = some (.file content σ) ∧ t.get? (t.site q) = some (.file c τ) ∧
    σ < τ ∧ 0 < τ ∧ u.get? (t.site q) = some (.file c τ)

structure Unmade (b : Plan) (t : FileTree) (p : Path) : Prop where
  noScene : b.editsScenes p.extension = false
  bytes : ∃ content σ, t.get? (t.site p) = some (.file content σ) ∧
    practiceBytes b none p content = none

theorem Unscripted.later {S : Location → Prop} (h : Unscripted b rel content t)
    (ht : t.WellFormed) (hx : t.Confined u S) (hs : ¬S (t.site (b.target rel))) :
    Unscripted b rel content u := by
  obtain ⟨hnull, c, hc, hread⟩ := h
  exact ⟨hnull, c, hc, hx.readBytes ht hs hread⟩

theorem Unscripted.not_unmade (h : Unscripted b rel content u) (hg : Found b t rel content σ) :
    ¬Unmade b t (b.source rel) := by
  rintro ⟨-, content', σ', hs, hnone⟩
  obtain ⟨-, c, hc, -⟩ := h
  obtain ⟨rfl, -⟩ := Entry.file.inj (Option.some.inj (hg.file.symm.trans hs))
  rw [hnone] at hc
  cases hc

theorem Found.unscripted_of_newer {d : Utf8.Bytes} {τ : Int} (hg : Found b u rel content σ)
    (h : Made b u now) (hscene : b.editsScenes (b.source rel).extension = false)
    (he : u.entry (b.target rel) = some (.file c τ)) (hnewer : σ < τ)
    (hmade : practiceBytes b none (b.source rel) content = some d) :
    Unscripted b rel content u := by
  obtain ⟨l, hl, hfile⟩ := FileTree.entry_eq_some_iff.mp he
  have hpractice := hfile
  have hsolution := hg.file
  have hout := hg.outside
  rw [h.wellFormed.locate_eq_site hl, site_target b u hg.descends] at hpractice
  rw [site_source b u hg.descends] at hsolution hout
  obtain ⟨-, horigin⟩ := h.file rel c τ hg.ne_nil hout hpractice
  rcases horigin content σ hsolution with hold | horigin
  · exact absurd hnewer (Int.not_lt.mpr hold)
  · obtain rfl := horigin.bytes hscene d hmade
    have hread := FileTree.readBytes_iff.mpr ⟨horigin.targetNull, l, τ, hl, hfile⟩
    exact ⟨horigin.sourceNull, d, hmade, hread⟩

theorem unscripted_of_remade {content' : Utf8.Bytes} (h : Found b t rel content σ)
    (hm : Remade t u (b.source rel) (b.target rel) time content' c)
    (hc : practiceBytes b none (b.source rel) content' = some c) :
    Unscripted b rel content u := by
  obtain ⟨σ', hs⟩ := hm.solution
  rw [h.file] at hs
  obtain ⟨rfl, -⟩ := Entry.file.inj (Option.some.inj hs)
  refine ⟨hm.sourceNull, c, hc, ?_⟩
  exact FileTree.readBytes_iff.mpr ⟨hm.targetNull, _, _, hm.located, hm.written⟩

structure Tracked (b : Plan) (t : FileTree) (now : Int) (rel : List Text) (content : Utf8.Bytes)
    (u : FileTree) : Prop where
  made : Made b u now
  confined : t.Confined u (InPractices b t)
  state : Unscripted b rel content u ∨ ∀ c τ,
    u.get? (t.site (b.target rel)) = some (.file c τ) ↔
      t.get? (t.site (b.target rel)) = some (.file c τ)

def Renewed (b : Plan) (t : FileTree) (forced : Bool) (rel : List Text) (content : Utf8.Bytes)
    (u : FileTree) : Prop :=
  Unscripted b rel content u ∨
    (forced = false ∧ (Overlooked b t u (b.source rel) ∨ Unmade b t (b.source rel)))

namespace Tracked

theorem renewed_of_rests (h : Tracked b t now rel content u)
    (hg : Found b t rel content σ) (hr : Rests u none (b.source rel) (b.target rel)) :
    Renewed b t false rel content u := by
  have hx := h.confined
  have hfound := hg.later hx
  obtain ⟨-, hpresent, hnewer, hpositive⟩ := upToDate_iff.mp hr
  obtain ⟨e, he⟩ := Option.isSome_iff_exists.mp hpresent
  rw [FileTree.timeOf, FileTree.timeOf, hfound.entry, he] at hnewer
  rw [FileTree.timeOf, he] at hpositive
  cases e with
  | directory => exact absurd hpositive (Int.lt_irrefl 0)
  | file c τ =>
    cases hscene : b.editsScenes (b.source rel).extension with
    | false =>
      cases hmade : practiceBytes b none (b.source rel) content with
      | none => exact .inr ⟨rfl, .inr ⟨hscene, content, σ, hg.file, hmade⟩⟩
      | some d => exact .inl (hfound.unscripted_of_newer h.made hscene he hnewer hmade)
    | true =>
      rcases h.state with hsame | hsame
      · exact .inl hsame
      -- no build took the practice since, and any script may have made it
      · obtain ⟨l, hl, hfile⟩ := FileTree.entry_eq_some_iff.mp he
        rw [h.made.wellFormed.locate_eq_site hl, FileTree.site_congr hx.place] at hfile
        exact .inr ⟨rfl, .inl ⟨hscene, b.target rel, content, c, σ, τ, practiceOf_source b rel,
          hg.file, (hsame c τ).mp hfile, hnewer, hpositive, hfile⟩⟩

theorem makes (h : Tracked b t now rel content v) (hg : Found b t rel content σ)
    {rel' : List Text} (hr' : ['.', '.'] ∉ rel') (hscript : rel' = rel → script = none)
    (hm : Makes b script forced now (b.source rel') v w) :
    Tracked b t now rel content w ∧
      (Renewed b t forced rel content v → Renewed b t forced rel content w) ∧
      (rel' = rel → Renewed b t forced rel content w) := by
  have hv := h.made.wellFormed
  have hplace := h.confined.place
  obtain ⟨hmade, hconfined⟩ := h.made.makes h.confined hr' hm
  by_cases hrel : rel' = rel
  · obtain rfl := hrel
    obtain rfl := hscript rfl
    rcases makes_cases hv hm with ⟨rfl, rfl, hrest⟩ | ⟨content', c, hremade, hc⟩
    · exact ⟨h, id, fun _ => h.renewed_of_rests hg hrest⟩
    · have hnew := unscripted_of_remade (hg.later h.confined) hremade hc
      exact ⟨⟨hmade, hconfined, .inl hnew⟩, fun _ => .inl hnew, fun _ => .inl hnew⟩
  · have hx := buildFile_source_confined hv b script forced hr' now
    rw [← hm.tree] at hx
    have hother : ¬v.site (b.target rel) = v.site b.roots.practices ++ rel' := by
      rw [site_target b v hg.descends]
      exact fun he => hrel (List.append_cancel_left he).symm
    have hkeep : ∀ c τ, w.get? (t.site (b.target rel)) = some (.file c τ) ↔
        v.get? (t.site (b.target rel)) = some (.file c τ) := by
      intro c τ
      rw [← FileTree.site_congr hplace]
      exact hx.file_iff hother
    refine ⟨⟨hmade, hconfined, ?_⟩, fun hrenewed => ?_, fun he => absurd he hrel⟩
    · rcases h.state with hsame | hsame
      · exact .inl (hsame.later hv hx hother)
      · exact .inr fun c τ => (hkeep c τ).trans (hsame c τ)
    · rcases hrenewed with hsame | ⟨hforced, hover | hunmade⟩
      · exact .inl (hsame.later hv hx hother)
      · obtain ⟨hscene, q, content', c, σ', τ, hq, hs, hc, hlt, h0, hu⟩ := hover
        obtain rfl := Except.ok.inj ((practiceOf_source b rel).symm.trans hq)
        exact .inr ⟨hforced, .inl ⟨hscene, b.target rel, content', c, σ', τ, hq, hs, hc, hlt, h0,
          (hkeep c τ).mpr hu⟩⟩
      · exact .inr ⟨hforced, .inr hunmade⟩

theorem makesDirectory (h : Tracked b t now rel content v) (hg : Found b t rel content σ)
    (hd : InSolutions b d)
    (hscript : ∀ files, b.filesOf v d pattern = .ok files → b.source rel ∈ files →
      ∀ name, b.scriptName = some name → loadScript v d name = .ok none)
    (hm : MakesDirectory b forced pattern now d v w) :
    Tracked b t now rel content w ∧
      (Renewed b t forced rel content v → Renewed b t forced rel content w) ∧
      ∀ files, b.filesOf v d pattern = .ok files → b.source rel ∈ files →
        Renewed b t forced rel content w := by
  obtain ⟨name, script, files, hn, hs, hf, hm⟩ := hm
  have hreach := hm.reaches (P := Tracked b t now rel content) (Q := Renewed b t forced rel content)
    (a := b.source rel) (fun p hp x y hx hxy => ?_) h
  · obtain ⟨htracked, hkeep, hlisted⟩ := hreach
    refine ⟨htracked, hkeep, fun files' hf' hp => hlisted ?_⟩
    rwa [Except.ok.inj (hf.symm.trans hf')]
  · obtain ⟨rel', rfl, -, hr'⟩ := source_of_mem h.made.wellFormed hd hf hp
    have hnone : rel' = rel → script = none := by
      rintro rfl
      exact Except.ok.inj (hs.symm.trans (hscript files hf hp name hn))
    obtain ⟨hy, hkeep, hnew⟩ := hx.makes hg hr' hnone hxy
    exact ⟨hy, hkeep, fun he => hnew (source_inj.mp he)⟩

end Tracked

/-! ### Directories without a script -/

structure Bare (b : Plan) (t : FileTree) (now : Int) (d : Path) : Prop where
  made : Made b t now
  script : ∀ u, t.Confined u (InPractices b t) →
    ∀ name, b.scriptName = some name → loadScript u d name = .ok none

namespace Bare

theorem of_removed (h : Made b t now) (hn : b.scriptName = some name)
    (hg : t.get? l = some (.file content time)) (hl : t.locate (d ++ Path.ofText name) = .ok l)
    (hout : ¬InPractices b t l) : Bare b (t.prune l) now d := by
  have ht := h.wellFormed
  refine ⟨h.remove (ht.not_isPrefix_of_file hg ht.here), fun u hx name' hn' => ?_⟩
  obtain rfl := Option.some.inj (hn.symm.trans hn')
  exact loadScript_removed ht hg hl hout hx

theorem later (h : Bare b t now d) (hx : t.Confined u (InPractices b t)) {later : Int}
    (hu : Made b u later) : Bare b u later d := by
  refine ⟨hu, fun v hv => ?_⟩
  rw [inPractices_congr hx.place] at hv
  exact h.script v (hx.trans hv)

theorem quiet (h : Bare b t now d) {later : Int}
    (hrun : ReflTransGen (Quiet b) (t, now) (u, later)) :
    Bare b u later d ∧ t.Confined u (InPractices b t) := by
  obtain ⟨hmade, hx⟩ := quiet_made hrun h.made
  exact ⟨h.later hx hmade, hx⟩

theorem renewed (h : Bare b u now d) (ht : t.WellFormed) (hx : t.Confined u (InPractices b t))
    (hf : b.filesOf t d pattern = .ok ps) (hp : b.source rel ∈ ps) (hg : Found b t rel content σ)
    (hb : Passes b forced pattern now u ds v) (hm : d ∈ ds) : Renewed b u forced rel content v := by
  have hu := h.made.wellFormed
  have hstart : Tracked b u now rel content u := ⟨h.made, .refl hu _, .inr fun _ _ => Iff.rfl⟩
  refine (hb.through.reaches (P := Tracked b u now rel content)
    (Q := Renewed b u forced rel content) (a := d) (fun d' hd' y z hy hyz => ?_) hstart).2.2 hm
  have hconfined := hy.confined
  -- only the exercise itself builds the file, so no other script is used for it
  have hnone : ∀ files, b.filesOf y d' pattern = .ok files → b.source rel ∈ files →
      ∀ name, b.scriptName = some name → loadScript y d' name = .ok none := by
    intro files hfiles hin
    rw [hb.disjoint hu hm hd' ht hy.made.wellFormed hf hp hfiles hin]
    exact h.script y hconfined
  obtain ⟨hz, hkeep, hlisted⟩ := hy.makesDirectory (hg.later hx) (hb.inSolutions hu hd') hnone hyz
  refine ⟨hz, hkeep, ?_⟩
  rintro rfl
  obtain ⟨-, -, files, -, -, hfiles, -⟩ := hyz
  rw [inPractices_congr hx.place] at hconfined
  exact hlisted files hfiles (hg.mem_filesOf ht (hx.trans hconfined) hf hp hfiles)

end Bare

/-! ### Forced builds of what is there -/

theorem Found.not_same (h : Found b t rel content σ) (ht : t.WellFormed) :
    t.same (b.source rel) (b.target rel) = false := by
  rw [FileTree.same, h.located]
  cases hm : t.locate (b.target rel) with
  | error o => rfl
  | ok m =>
    have hne : t.site (b.source rel) ≠ m := by
      rw [ht.locate_eq_site hm]
      intro he
      apply h.outside
      rw [he, site_target b t h.descends]
      exact List.prefix_append _ _
    simp [hne]

theorem regenerate_present {d : Utf8.Bytes} (h : t.WellFormed)
    (hr : t.readBytes source = .ok content) (hb : practiceBytes b script source content = some c)
    (ht : t.readBytes target = .ok d) (hs : t.same source target = false) (time : Int) :
    ∃ w r, regenerate b t script source target time = ⟨w, .ok r⟩ ∧ r.failed = false := by
  obtain ⟨hn, l, τ, hl, hg⟩ := FileTree.readBytes_iff.mp ht
  have hfree : t.get? l ≠ some .directory := by simp [hg]
  have hparent : t.ensureDirectories target.parent = (t, none) :=
    FileTree.ensureDirectoriesWithin_present (h.hasDirectory_parent hl hfree) _
  exact regenerate_of_bytes hparent hr hb (FileTree.writeBytes_iff.mpr ⟨hn, l, hl, hfree, rfl⟩) hs

theorem makes_of_unscripted (h : t.WellFormed) (hg : Found b t rel content σ)
    (hu : Unscripted b rel content t) (time : Int) :
    ∃ u r, buildFile b t none true (b.source rel) time = ⟨u, .ok r⟩ ∧ r.failed = false := by
  obtain ⟨hnull, c, hc, hread⟩ := hu
  have hsource := FileTree.readBytes_iff.mpr ⟨hnull, _, σ, hg.located, hg.file⟩
  obtain ⟨u, r, hr, hok⟩ := regenerate_present h hsource hc hread (hg.not_same h) time
  refine ⟨u, r, ?_, hok⟩
  rw [buildFile, practiceOf_source]
  exact hr

theorem buildFiles_of_unscripted (h : Made b t now)
    (hps : ∀ p ∈ ps, ∃ rel content σ, p = b.source rel ∧ Found b t rel content σ ∧
      Unscripted b rel content t) :
    (buildFiles b none true now t ps).abort = none ∧
      ∀ r ∈ (buildFiles b none true now t ps).result, r.failed = false := by
  induction ps generalizing t with
  | nil => exact ⟨rfl, fun r hr => absurd hr List.not_mem_nil⟩
  | cons p ps ih =>
    obtain ⟨rel, content, σ, rfl, hg, hu⟩ := hps p List.mem_cons_self
    obtain ⟨u, r, hr, hok⟩ := makes_of_unscripted h.wellFormed hg hu now
    have hmakes : Makes b none true now (b.source rel) t u := ⟨r, hr, hok⟩
    obtain ⟨hmade, hx⟩ := h.makes (.refl h.wellFormed _) hg.descends hmakes
    have hrest := ih hmade fun p hp => by
      obtain ⟨rel', content', σ', rfl, hg', hu'⟩ := hps p (List.mem_cons_of_mem _ hp)
      refine ⟨rel', content', σ', rfl, hg'.later hx, ?_⟩
      have htracked : Tracked b t now rel' content' t := ⟨h, .refl h.wellFormed _, .inl hu'⟩
      obtain ⟨-, hkeep, -⟩ := htracked.makes hg' hg.descends (fun _ => rfl) hmakes
      rcases hkeep (.inl hu') with hkept | ⟨hforced, -⟩
      · exact hkept
      · cases hforced
    rw [buildFiles, hr]
    simp only [hok, Bool.false_eq_true, if_false]
    refine ⟨hrest.1, fun r' hm => ?_⟩
    rcases List.mem_cons.mp hm with rfl | hm
    · exact hok
    · exact hrest.2 r' hm

theorem Bare.passes_forced (h : Bare b t now d) (hd : InSolutions b d)
    (hn : b.scriptName = some name) (hf : b.filesOf t d pattern = .ok ps)
    (hps : ∀ p ∈ ps, ∃ rel content σ, p = b.source rel ∧ Found b t rel content σ ∧
      Unscripted b rel content t) : ∃ u, Passes b true pattern now t [d] u := by
  have hs := h.script t (.refl h.made.wellFormed _) name hn
  obtain ⟨habort, hfiles⟩ := buildFiles_of_unscripted h.made hps
  refine ⟨_, .alone hd ?_ ?_⟩
  · simp only [buildDirectory, hn, buildWithScript, hs, hf]
    exact habort
  · simp only [buildDirectory, hn, buildWithScript, hs, hf]
    rw [DirectoryResult.ok, Bool.not_eq_true', List.any_eq_false]
    exact fun r hr => Bool.eq_false_iff.mp (hfiles r hr)

/-! ### Removing a script -/

theorem samePractice_of_unscripted (hu : Unscripted b rel content u)
    (hw : Unscripted b rel content w) : SamePractice b u w (b.source rel) := by
  obtain ⟨-, c, hc, hread⟩ := hu
  obtain ⟨-, c', hc', hread'⟩ := hw
  obtain rfl := Option.some.inj (hc.symm.trans hc')
  exact ⟨b.target rel, practiceOf_source b rel, c, hread, hread'⟩

/-- After the script of a directory is removed, a build that need not be forced leaves the practices
that a forced build makes, but for scenes whose practices are newer than their solutions. In a
directory without such scenes, without practices, and without files that no build can make, a
forced build does not fail. Scripts turn scenes into scenes and write no file, all that one build
writes has one time, and directories have none. -/
theorem script_removal_takes_effect {s : SceneScript} {t₀ t' : FileTree} {now₀ later : Int}
    (h : t₀.WellFormed) (ho : Outdated b t₀ now₀)
    (hrun : ReflTransGen (Event b) (t₀, now₀) (t, now)) (hn : b.scriptName = some name)
    (hs : loadScript t d name = .ok (some s)) (hl : t.locate (d ++ Path.ofText name) = .ok l)
    (hout : ¬InPractices b t l) (hquiet : ReflTransGen (Quiet b) (t.prune l, now) (t', later))
    (hu : Passes b false pattern later t' ds u) (hm : d ∈ ds)
    (hf : b.filesOf t' d pattern = .ok ps) :
    (∀ v last ds' w, ReflTransGen (Quiet b) (t', later) (v, last) →
      Passes b true pattern last v ds' w → d ∈ ds' →
      ∀ p ∈ ps, ¬InPractices b t' (t'.site p) → Overlooked b t' u p ∨ SamePractice b u w p) ∧
    (t'.hasDirectory d = true → (∀ rel, ¬InPractices b t' (t'.site d ++ rel)) →
      (∀ p ∈ ps, ¬Overlooked b t' u p ∧ ¬Unmade b t' p) →
      ∀ last, later ≤ last → ∃ w, Passes b true pattern last u [d] w) := by
  obtain ⟨script, τ, he⟩ := file_of_loadScript hs
  obtain ⟨m, hm', hg⟩ := FileTree.entry_eq_some_iff.mp he
  obtain rfl : m = l := Except.ok.inj (hm'.symm.trans hl)
  -- from the removal on the directory has no script, whatever is built
  have hremoved := Bare.of_removed (run_made hrun (.of_outdated h ho)) hn hg hl hout
  obtain ⟨hbare, -⟩ := hremoved.quiet hquiet
  have ht := hbare.made.wellFormed
  have hd := hu.inSolutions ht hm
  constructor
  · intro v last ds' w hrun' hw hm' p hp hp'
    obtain ⟨rel, content, σ, rfl, hfound⟩ := found_of_mem_filesOf ht hd hf hp hp'
    obtain ⟨hbarev, hx⟩ := hbare.quiet hrun'
    -- a forced build overlooks nothing
    have hforced : Unscripted b rel content w := by
      rcases hbarev.renewed ht hx hf hp hfound hw hm' with hsame | ⟨hnot, -⟩
      · exact hsame
      · cases hnot
    rcases hbare.renewed ht (.refl ht _) hf hp hfound hu hm with hsame | ⟨-, hover | hunmade⟩
    · exact .inr (samePractice_of_unscripted hsame hforced)
    · exact .inl hover
    · exact absurd hunmade (hforced.not_unmade hfound)
  · intro hdir hfar hnone last hlast
    obtain ⟨hmadeu, hx⟩ := hbare.made.runs hu.runs
    have hbareu := hbare.later hx (hmadeu.wait hlast)
    apply hbareu.passes_forced hd hn ((filesOf_of_confined ht hdir hfar hx).trans hf)
    intro p hp
    have hp' : ¬InPractices b t' (t'.site p) := by
      obtain ⟨m, rel, -, -, hm, -, -, hsite, -⟩ := located_of_mem_filesOf ht hf hp
      rw [hsite, ht.locate_eq_site hm]
      exact hfar rel
    obtain ⟨rel, content, σ, rfl, hfound⟩ := found_of_mem_filesOf ht hd hf hp hp'
    refine ⟨rel, content, σ, rfl, hfound.later hx, ?_⟩
    rcases hbare.renewed ht (.refl ht _) hf hp hfound hu hm with hsame | ⟨-, hover | hunmade⟩
    · exact hsame
    · exact absurd hover (hnone _ hp).1
    · exact absurd hunmade (hnone _ hp).2

theorem not_overlooked {q : Path} (hq : b.roots.practiceOf p = .ok q)
    (h : ((t.get? (t.site q)).map Entry.time).getD 0 ≤
      ((t.get? (t.site p)).map Entry.time).getD 0) : ¬Overlooked b t u p := by
  rintro ⟨-, q', content, c, σ, τ, hq', hs, hc, hlt, -⟩
  obtain rfl := Except.ok.inj (hq.symm.trans hq')
  rw [hs, hc] at h
  exact Int.not_lt.mpr h hlt

def tiedBuild : Run BuildReport := buildAll (sample "diff.py") besideTree false none 5

def tiedRemoved : FileTree := tiedBuild.tree.prune ["w", "s", "diff.py"]

def tiedRebuild : Run BuildReport := buildAll (sample "diff.py") tiedRemoved false none 6

def rootExercise : Path := (sample "diff.py").source []

def rootScene : Path := (sample "diff.py").source ["a.tscn"]

theorem script_removal_takes_effect_tied : besideTree.WellFormed ∧
    Outdated (sample "diff.py") besideTree 5 ∧
    Passes (sample "diff.py") false none 5 besideTree [rootExercise] tiedBuild.tree ∧
    (∃ s, loadScript tiedBuild.tree rootExercise "diff.py" = .ok (some s)) ∧
    Passes (sample "diff.py") false none 6 tiedRemoved [rootExercise] tiedRebuild.tree ∧
    ∃ w, Passes (sample "diff.py") true none 7 tiedRebuild.tree [rootExercise] w ∧
      SamePractice (sample "diff.py") tiedRebuild.tree w rootScene := by
  have hwf : besideTree.WellFormed := by decide +kernel
  have ho : Outdated (sample "diff.py") besideTree 5 := outdated_of_vacant (by decide +kernel) 5
  have hfirst : (sample "diff.py").exercises besideTree none = .ok [rootExercise] ∧
      tiedBuild.abort = none ∧ tiedBuild.result.ok = true := by decide +kernel
  have hlast : (sample "diff.py").exercises tiedRemoved none = .ok [rootExercise] ∧
      tiedRebuild.abort = none ∧ tiedRebuild.result.ok = true := by decide +kernel
  have hscript : (∃ s, loadScript tiedBuild.tree rootExercise "diff.py" = .ok s ∧
        s.isSome = true) ∧
      tiedBuild.tree.locate (rootExercise ++ Path.ofText "diff.py") = .ok ["w", "s", "diff.py"] ∧
      ¬tiedBuild.tree.site (sample "diff.py").roots.practices <+: ["w", "s", "diff.py"] := by
    decide +kernel
  obtain ⟨⟨_, hs, hsome⟩, hl, hout⟩ := hscript
  obtain ⟨s, rfl⟩ := Option.isSome_iff_exists.mp hsome
  have hfiles : (sample "diff.py").filesOf tiedRemoved rootExercise none = .ok [rootScene] := by
    decide +kernel
  have hapart : tiedRemoved.hasDirectory rootExercise = true ∧
      tiedRemoved.site (sample "diff.py").roots.practices = ["w", "p"] ∧
      tiedRemoved.site rootExercise = ["w", "s"] := by decide +kernel
  have hout' : ∀ rel, ¬InPractices (sample "diff.py") tiedRemoved
      (tiedRemoved.site rootExercise ++ rel) := by
    intro rel hp
    rw [InPractices, hapart.2.1, hapart.2.2] at hp
    cases List.cons_prefix_cons.mp (List.cons_prefix_cons.mp hp).2
    contradiction
  have hrun : Passes (sample "diff.py") false none 5 besideTree [rootExercise] tiedBuild.tree :=
    .all hfirst.1 hfirst.2.1 hfirst.2.2
  have hbuild : Passes (sample "diff.py") false none 6 tiedRemoved [rootExercise]
      tiedRebuild.tree := .all hlast.1 hlast.2.1 hlast.2.2
  have hnone : ¬Overlooked (sample "diff.py") tiedRemoved tiedRebuild.tree rootScene :=
    not_overlooked (practiceOf_source _ _) (by decide +kernel)
  have hscene : ¬Unmade (sample "diff.py") tiedRemoved rootScene := fun hu =>
    absurd hu.noScene (by decide +kernel)
  obtain ⟨hsame, hforced⟩ := script_removal_takes_effect hwf ho
    (.single (.quiet (.build hrun.runs))) rfl hs hl hout
    (.single (.wait (by decide : (5 : Int) ≤ 6))) hbuild List.mem_cons_self hfiles
  obtain ⟨w, hw⟩ := hforced hapart.1 hout'
    (fun p hp => List.mem_singleton.mp hp ▸ ⟨hnone, hscene⟩) 7 (by decide)
  have hrest : ReflTransGen (Quiet (sample "diff.py")) (tiedRemoved, 6) (tiedRebuild.tree, 7) :=
    .tail (.single (.build hbuild.runs)) (.wait (by decide))
  refine ⟨hwf, ho, hrun, ⟨s, hs⟩, hbuild, w, hw, ?_⟩
  apply (hsame _ _ _ w hrest hw List.mem_cons_self _ List.mem_cons_self ?_).resolve_left hnone
  decide +kernel

def Scripted (b : Plan) (t : FileTree) (pattern : Option Text) (d p : Path) (l : Location) : Prop :=
  (∃ files, b.filesOf t d pattern = .ok files ∧ p ∈ files ∧
    ∀ p ∈ files, ∃ q, b.roots.practiceOf p = .ok q ∧ t.hasPath q = true) ∧
  (∃ s, loadScript t d (b.scriptName.getD []) = .ok s ∧ s.isSome = true) ∧
  t.locate (b.scriptIn d) = .ok l ∧ t.site b.roots.solutions <+: l ∧ ¬InPractices b t l

instance : Decidable (Scripted b t pattern d p l) := inferInstanceAs (Decidable (_ ∧ _))

def Succeeds (b : Plan) (time : Int) (t u : FileTree) : Prop :=
  ∃ forced pattern ds, Passes b forced pattern time t ds u

structure Lingers (b : Plan) (t₀ t u v w : FileTree) (pattern : Option Text) (d p : Path)
    (l : Location) : Prop where
  wellFormed : t₀.WellFormed
  vacant : t₀.Vacant (t₀.site b.roots.practices)
  run : ReflTransGen (Succeeds b 6) t₀ t
  scripted : Scripted b t pattern d p l
  last : ∃ ds, Passes b false pattern 7 (t.prune l) ds u ∧ d ∈ ds
  later : ReflTransGen (Succeeds b 8) u v
  forced : ∃ ds, Passes b true pattern 8 v ds w ∧ d ∈ ds
  differ : ¬SamePractice b u w p

def newerBuild : Run BuildReport := buildAll (sample "diff.py") besideTree false none 6

def newerRebuild : Run BuildReport :=
  buildAll (sample "diff.py") (newerBuild.tree.prune ["w", "s", "diff.py"]) false none 7

def newerForced : Run BuildReport := buildAll (sample "diff.py") newerRebuild.tree true none 8

def nestedPlan : Plan where
  roots := Roots.ofNames (Path.ofText "/w") "s" "s/p" "res://"
  scriptName := some "../diff.py"

def nestedTree : FileTree where
  entries := [
    (["w"], .directory), (["w", "s"], .directory), (["w", "s", "diff.py"], sampleScript),
    (["w", "s", "l"], .directory),
    (["w", "s", "l", "a.tscn"], .file (Utf8.encode "[gd_scene]\n\n[node name=\"A\"]\n") 5)]

def nestedFirst (t : FileTree) (forced : Bool) (time : Int) : Run DirectoryResult :=
  buildDirectory nestedPlan t forced none time (nestedPlan.source ["l"])

def nestedSecond (t : FileTree) (forced : Bool) (time : Int) : Run DirectoryResult :=
  buildDirectory nestedPlan t forced (some "l/*") time (nestedPlan.source ["p"])

def nestedBuilt : FileTree := (nestedSecond (nestedFirst nestedTree false 6).tree false 6).tree

def nestedRemoved : FileTree := nestedBuilt.prune ["w", "s", "diff.py"]

def nestedRebuilt : FileTree := (nestedSecond nestedRemoved false 7).tree

def nestedForced : FileTree := (nestedSecond (nestedFirst nestedRebuilt true 8).tree true 8).tree

theorem nestedFirst_passes {t : FileTree} {forced : Bool} {time : Int}
    (h : (nestedFirst t forced time).abort = none ∧ (nestedFirst t forced time).result.ok = true) :
    Passes nestedPlan forced none time t [nestedPlan.source ["l"]]
      (nestedFirst t forced time).tree :=
  .alone ⟨["l"], by decide, rfl⟩ h.1 h.2

theorem nestedSecond_passes {t : FileTree} {forced : Bool} {time : Int}
    (h : (nestedSecond t forced time).abort = none ∧
      (nestedSecond t forced time).result.ok = true) :
    Passes nestedPlan forced (some "l/*") time t [nestedPlan.source ["p"]]
      (nestedSecond t forced time).tree :=
  .alone ⟨["p"], by decide, rfl⟩ h.1 h.2

theorem removed_script_lingers :
    Lingers (sample "diff.py") besideTree newerBuild.tree newerRebuild.tree newerRebuild.tree
      newerForced.tree none rootExercise rootScene ["w", "s", "diff.py"] ∧
    Lingers nestedPlan nestedTree nestedBuilt nestedRebuilt
      (nestedFirst nestedRebuilt true 8).tree nestedForced (some "l/*")
      (nestedPlan.source ["p"]) (nestedPlan.source ["p", "l", "a.tscn"]) ["w", "s", "diff.py"] ∧
    ¬Overlooked nestedPlan nestedRemoved nestedRebuilt
      (nestedPlan.source ["p", "l", "a.tscn"]) := by
  refine ⟨?_, ?_, not_overlooked (practiceOf_source _ _) (by decide +kernel)⟩
  · have hwf : besideTree.WellFormed ∧
        besideTree.Vacant (besideTree.site (sample "diff.py").roots.practices) := by
      decide +kernel
    have hrun : (sample "diff.py").exercises besideTree none = .ok [rootExercise] ∧
        newerBuild.abort = none ∧ newerBuild.result.ok = true ∧
        (sample "diff.py").exercises (newerBuild.tree.prune ["w", "s", "diff.py"]) none =
          .ok [rootExercise] ∧
        newerRebuild.abort = none ∧ newerRebuild.result.ok = true ∧
        (sample "diff.py").exercises newerRebuild.tree none = .ok [rootExercise] ∧
        newerForced.abort = none ∧ newerForced.result.ok = true ∧
        Scripted (sample "diff.py") newerBuild.tree none rootExercise rootScene
          ["w", "s", "diff.py"] ∧
        ¬SamePractice (sample "diff.py") newerRebuild.tree newerForced.tree rootScene := by
      decide +kernel
    obtain ⟨he, ha, hok, he', ha', hok', he'', ha'', hok'', hscripted, hdiffer⟩ := hrun
    refine ⟨hwf.1, hwf.2, ?_, hscripted, ?_, ?_, ?_, hdiffer⟩
    · exact .single ⟨_, _, _, .all he ha hok⟩
    · exact ⟨_, .all he' ha' hok', List.mem_cons_self⟩
    · exact .refl
    · exact ⟨_, .all he'' ha'' hok'', List.mem_cons_self⟩
  · have hwf : nestedTree.WellFormed ∧
        nestedTree.Vacant (nestedTree.site nestedPlan.roots.practices) := by decide +kernel
    have hrun : ((nestedFirst nestedTree false 6).abort = none ∧
          (nestedFirst nestedTree false 6).result.ok = true) ∧
        ((nestedSecond (nestedFirst nestedTree false 6).tree false 6).abort = none ∧
          (nestedSecond (nestedFirst nestedTree false 6).tree false 6).result.ok = true) ∧
        ((nestedSecond nestedRemoved false 7).abort = none ∧
          (nestedSecond nestedRemoved false 7).result.ok = true) ∧
        ((nestedFirst nestedRebuilt true 8).abort = none ∧
          (nestedFirst nestedRebuilt true 8).result.ok = true) ∧
        ((nestedSecond (nestedFirst nestedRebuilt true 8).tree true 8).abort = none ∧
          (nestedSecond (nestedFirst nestedRebuilt true 8).tree true 8).result.ok = true) ∧
        Scripted nestedPlan nestedBuilt (some "l/*") (nestedPlan.source ["p"])
          (nestedPlan.source ["p", "l", "a.tscn"]) ["w", "s", "diff.py"] ∧
        ¬SamePractice nestedPlan nestedRebuilt nestedForced
          (nestedPlan.source ["p", "l", "a.tscn"]) := by decide +kernel
    obtain ⟨hone, htwo, hthree, hfour, hfive, hscripted, hdiffer⟩ := hrun
    refine ⟨hwf.1, hwf.2, ?_, hscripted, ?_, ?_, ?_, hdiffer⟩
    · exact .tail (.single ⟨_, _, _, nestedFirst_passes hone⟩) ⟨_, _, _, nestedSecond_passes htwo⟩
    · exact ⟨_, nestedSecond_passes hthree, List.mem_cons_self⟩
    · exact .single ⟨_, _, _, nestedFirst_passes hfour⟩
    · exact ⟨_, nestedSecond_passes hfive, List.mem_cons_self⟩

end Coursework.Build
