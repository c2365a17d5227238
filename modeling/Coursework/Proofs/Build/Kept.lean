import Coursework.Proofs.Build.Content
import Coursework.Proofs.Build.Scan

namespace Coursework.Build

variable {b : Plan} {t u v : FileTree} {d p : Path} {pattern : Option Text} {rel : List Text}
  {c : Utf8.Bytes}

structure SameScript (b : Plan) (t u : FileTree) (d : Path) : Prop where
  time : u.timeOf (b.scriptIn d) = t.timeOf (b.scriptIn d)
  load : loadScript u d (b.scriptName.getD []) = loadScript t d (b.scriptName.getD [])

theorem sameScript_of_entry (h : u.entry (b.scriptIn d) = t.entry (b.scriptIn d) ∨
    (t.entry (b.scriptIn d) = none ∧ u.entry (b.scriptIn d) = some .directory)) :
    SameScript b t u d := by
  rcases h with h | ⟨ht, hu⟩
  · refine ⟨by rw [FileTree.timeOf, FileTree.timeOf, h], ?_⟩
    rw [Plan.scriptIn] at h
    rw [loadScript, loadScript, h]
  · refine ⟨by rw [FileTree.timeOf, FileTree.timeOf, ht, hu]; rfl, ?_⟩
    rw [Plan.scriptIn] at ht hu
    rw [loadScript, loadScript, ht, hu]

theorem time_of_loadScript {script : Option SceneScript}
    (h : loadScript t d (b.scriptName.getD []) = .ok script) :
    (script.map SceneScript.time).getD 0 = t.timeOf (b.scriptIn d) := by
  rw [loadScript] at h
  rw [FileTree.timeOf, Plan.scriptIn]
  cases he : t.entry (d ++ Path.ofText (b.scriptName.getD [])) with
  | none =>
    simp only [he] at h
    obtain rfl := Except.ok.inj h
    rfl
  | some e =>
    cases e with
    | directory =>
      simp only [he] at h
      obtain rfl := Except.ok.inj h
      rfl
    | file content time =>
      simp only [he] at h
      split at h
      · split at h
        · obtain rfl := Except.ok.inj h
          rfl
        · cases h
      · cases h

theorem file_of_loadScript {name : Text} {s : SceneScript}
    (hs : loadScript t d name = .ok (some s)) :
    ∃ c τ, t.entry (d ++ Path.ofText name) = some (.file c τ) := by
  rw [loadScript] at hs
  cases he : t.entry (d ++ Path.ofText name) with
  | none => simp [he] at hs
  | some e =>
    cases e with
    | directory => simp [he] at hs
    | file c τ => exact ⟨c, τ, rfl⟩

structure Kept (b : Plan) (t u : FileTree) : Prop where
  place : u.place = t.place
  get? : ∀ rel, u.get? (t.landing (b.source rel)) = t.get? (t.landing (b.source rel))
  script : ∀ xs, ['.', '.'] ∉ xs → SameScript b t u (b.source xs)

theorem kept_of_entries (ht : t.WellFormed) (hu : u.WellFormed) (hb : b.Layout)
    (hp : u.place = t.place)
    (hg : ∀ rel, u.get? (t.landing (b.source rel)) = t.get? (t.landing (b.source rel)))
    (hs : ∀ xs, u.get? (t.landing (b.scriptIn (b.source xs))) =
        t.get? (t.landing (b.scriptIn (b.source xs))) ∨
      (t.get? (t.landing (b.scriptIn (b.source xs))) = none ∧
        u.get? (t.landing (b.scriptIn (b.source xs))) = some .directory)) : Kept b t u := by
  refine ⟨hp, hg, fun xs hx => sameScript_of_entry ?_⟩
  have hd := hb.scriptIn hx
  rw [ht.entry_eq hd, hu.entry_eq hd, FileTree.landing_congr hp]
  exact hs xs

namespace Kept

theorem refl (b : Plan) (t : FileTree) : Kept b t t := ⟨rfl, fun _ => rfl, fun _ _ => ⟨rfl, rfl⟩⟩

theorem landing (h : Kept b t u) (p : Path) : u.landing p = t.landing p :=
  FileTree.landing_congr h.place p

theorem trans (h : Kept b t u) (k : Kept b u v) : Kept b t v where
  place := k.place.trans h.place
  get? rel := by
    have hk := k.get? rel
    rw [h.landing] at hk
    rw [hk, h.get?]
  script xs hx :=
    ⟨(k.script xs hx).time.trans (h.script xs hx).time,
      (k.script xs hx).load.trans (h.script xs hx).load⟩

theorem symm (h : Kept b t u) : Kept b u t where
  place := h.place.symm
  get? rel := by rw [h.landing, h.get?]
  script xs hx := ⟨(h.script xs hx).time.symm, (h.script xs hx).load.symm⟩

theorem get?_source (h : Kept b t u) (rel : List Text) :
    u.get? (u.landing (b.source rel)) = t.get? (t.landing (b.source rel)) := by
  rw [h.landing, h.get?]

theorem taken (h : Kept b t u) {xs : List Text} {recursive : Bool}
    (hr : Taken b t (b.source xs) pattern recursive rel) :
    Taken b u (b.source xs) pattern recursive rel := by
  obtain ⟨⟨c, τ, hg⟩, hrest⟩ := hr
  have hk := h.get?_source (xs ++ rel)
  refine ⟨⟨c, τ, ?_⟩, hrest⟩
  simp only [Plan.source, FileTree.landing_under, ← List.append_assoc] at hk hg ⊢
  rw [hk, hg]

theorem mem_scan (h : Kept b t u) (ht : t.WellFormed) (hu : u.WellFormed) {xs : List Text}
    (hd : (b.source xs).Descends) {recursive : Bool} :
    p ∈ scan u b.excludes.patterns (b.source xs) pattern recursive ↔
      p ∈ scan t b.excludes.patterns (b.source xs) pattern recursive := by
  rw [mem_scan_iff ht hd, mem_scan_iff hu hd]
  constructor
  · rintro ⟨rel, rfl, hr⟩
    exact ⟨rel, rfl, h.symm.taken hr⟩
  · rintro ⟨rel, rfl, hr⟩
    exact ⟨rel, rfl, h.taken hr⟩

theorem scanWith (h : Kept b t u) (ht : t.WellFormed) (hu : u.WellFormed) {xs : List Text}
    (hd : (b.source xs).Descends) {recursive : Bool} {files : List Path}
    (hs : scanWith t b.excludes (b.source xs) pattern recursive = .ok files) :
    ∃ files', scanWith u b.excludes (b.source xs) pattern recursive = .ok files' ∧
      ∀ p, p ∈ files' ↔ p ∈ files := by
  obtain ⟨rfl, hc⟩ := scanWith_ok hs
  have he : (scan u b.excludes.patterns (b.source xs) none recursive).isEmpty =
      (scan t b.excludes.patterns (b.source xs) none recursive).isEmpty := by
    rw [Bool.eq_iff_iff, List.isEmpty_iff, List.isEmpty_iff, List.eq_nil_iff_forall_not_mem,
      List.eq_nil_iff_forall_not_mem]
    simp only [h.mem_scan ht hu hd]
  rw [← he] at hc
  exact ⟨_, if_pos hc, fun p => h.mem_scan ht hu hd⟩

theorem isExercise (h : Kept b t u) (hd : IsExercise b t d) : IsExercise b u d := by
  rcases hd with rfl | ⟨name, rfl, hg⟩
  · exact .inl rfl
  · exact .inr ⟨name, rfl, (h.get?_source [name]).trans hg⟩

theorem filesOf (h : Kept b t u) (ht : t.WellFormed) (hu : u.WellFormed) (hb : b.Layout)
    (hd : IsExercise b t d) {files : List Path} (hf : b.filesOf t d pattern = .ok files) :
    ∃ files', b.filesOf u d pattern = .ok files' ∧ ∀ p, p ∈ files' ↔ p ∈ files := by
  have hdesc := hd.descends ht hb.toSeparate
  rcases hd with rfl | ⟨name, rfl, -⟩
  · exact h.scanWith ht hu hdesc hf
  · exact h.scanWith ht hu hdesc hf

theorem exercises (h : Kept b t u) (ht : t.WellFormed) (hu : u.WellFormed) (hb : b.Layout)
    {ds : List Path} (he : b.exercises t none = .ok ds) :
    ∃ ds', b.exercises u none = .ok ds' ∧ ∀ d, d ∈ ds' ↔ d ∈ ds := by
  have hroot : b.source [] = b.roots.solutions := by simp [Plan.source]
  have hdir : u.hasDirectory b.roots.solutions = t.hasDirectory b.roots.solutions := by
    rw [Bool.eq_iff_iff, FileTree.hasDirectory_iff hu hb.solutions,
      FileTree.hasDirectory_iff ht hb.solutions, ← hroot, h.get?_source]
  have hok : ∃ ds', b.exercises u none = .ok ds' := by
    rw [Plan.exercises] at he ⊢
    rw [hdir]
    by_cases hd : t.hasDirectory b.roots.solutions = true
    · simp only [hd, if_true] at he ⊢
      cases hs : Build.scanWith t b.excludes b.roots.solutions none false with
      | error e => simp [hs, bind, Except.bind] at he
      | ok files =>
        rw [← hroot] at hs
        obtain ⟨files', hs', -⟩ := h.scanWith ht hu (hroot ▸ hb.solutions) hs
        rw [hroot] at hs'
        exact ⟨_, by simp only [hs', bind, Except.bind]; rfl⟩
    · simp only [hd, Bool.false_eq_true, if_false] at he ⊢
      exact ⟨_, rfl⟩
  obtain ⟨ds', he'⟩ := hok
  refine ⟨ds', he', fun d => ?_⟩
  rw [exercises_none ht hb.solutions he, exercises_none hu hb.solutions he']
  simp only [h.get?_source]
  refine or_congr (and_congr_right fun _ => ?_) Iff.rfl
  constructor
  · rintro ⟨rel, hr⟩
    exact ⟨rel, h.symm.taken hr⟩
  · rintro ⟨rel, hr⟩
    exact ⟨rel, h.taken hr⟩

end Kept

def scriptOf (b : Plan) (t : FileTree) (rel : List Text) :
    Except ScriptFault (Option SceneScript) :=
  loadScript t (b.home rel) (b.scriptName.getD [])

theorem Kept.scriptPath (h : Kept b t u) (hr : ['.', '.'] ∉ rel) :
    SameScript b t u (b.home rel) := by
  obtain ⟨n, hn⟩ := b.home_eq rel
  rw [hn]
  exact h.script _ fun hm => hr (List.mem_of_mem_take hm)

def Fresh (b : Plan) (t : FileTree) (rel : List Text) (c : Utf8.Bytes) : Prop :=
  ∃ script content τ, scriptOf b t rel = .ok script ∧
    t.get? (t.landing (b.source rel)) = some (.file content τ) ∧
    practiceBytes b script (b.source rel) content = some c ∧
    (b.source rel).hasNull = false ∧ (b.target rel).hasNull = false

theorem Fresh.unique {c c' : Utf8.Bytes} (h : Fresh b t rel c) (h' : Fresh b t rel c') :
    c = c' := by
  obtain ⟨script, content, τ, hs, hg, hc, -⟩ := h
  obtain ⟨script', content', τ', hs', hg', hc', -⟩ := h'
  obtain rfl := Except.ok.inj (hs.symm.trans hs')
  obtain ⟨rfl, -⟩ := Entry.file.inj (Option.some.inj (hg.symm.trans hg'))
  exact Option.some.inj (hc.symm.trans hc')

theorem Kept.fresh (h : Kept b t u) (hr : ['.', '.'] ∉ rel) (hf : Fresh b t rel c) :
    Fresh b u rel c := by
  obtain ⟨script, content, τ, hs, hg, hrest⟩ := hf
  exact ⟨script, content, τ, (h.scriptPath hr).load.trans hs, (h.get?_source rel).trans hg, hrest⟩

end Coursework.Build
