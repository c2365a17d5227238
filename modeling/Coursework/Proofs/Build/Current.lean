import Coursework.Proofs.Build.Kept

/-!
What holds of the practices between two builds, and what one build of a file keeps of it.
-/

namespace Coursework.Build

open FileTree (landing_under)

variable {b : Plan} {t u v : FileTree} {script : Option SceneScript} {forced : Bool}
  {now : Int} {rel : List Text} {content c : Utf8.Bytes}

/-- Each practice belongs to a solution, and one that is newer than its solution and its script
holds what they give. No practice is newer than the clock. -/
structure Current (b : Plan) (t : FileTree) (now : Int) : Prop where
  wellFormed : t.WellFormed
  directory : ∀ rel, rel ≠ [] → t.get? (t.landing (b.target rel)) = some .directory →
    t.get? (t.landing (b.source rel)) = some .directory
  file : ∀ rel c τ, rel ≠ [] → t.get? (t.landing (b.target rel)) = some (.file c τ) →
    τ ≤ now ∧ ∃ content σ, t.get? (t.landing (b.source rel)) = some (.file content σ) ∧
      (τ ≤ σ ∨ τ ≤ t.timeOf (b.scriptPath rel) ∨ Fresh b t rel c)

def Settled (b : Plan) (t : FileTree) (rel : List Text) : Prop :=
  rel ≠ [] ∧ ∃ c τ, t.get? (t.landing (b.target rel)) = some (.file c τ) ∧ Fresh b t rel c

structure Built (b : Plan) (t u : FileTree) (now : Int) : Prop where
  current : Current b u now
  kept : Kept b t u
  directory : ∀ l, t.get? l = some .directory → u.get? l = some .directory
  settled : ∀ rel, Settled b t rel → Settled b u rel

theorem Current.built (h : Current b t now) : Built b t t now :=
  ⟨h, .refl b t, fun _ hd => hd, fun _ hs => hs⟩

theorem Built.trans (h : Built b t u now) (k : Built b u v now) : Built b t v now where
  current := k.current
  kept := h.kept.trans k.kept
  directory l hd := k.directory l (h.directory l hd)
  settled rel hs := k.settled rel (h.settled rel hs)

theorem landing_source (b : Plan) (t : FileTree) (as bs : List Text) :
    t.landing (b.source (as ++ bs)) = t.landing (b.source as) ++ bs := by
  simp [Plan.source, landing_under]

theorem target_isPrefix_iff (b : Plan) (t : FileTree) {as bs : List Text} :
    t.landing (b.target as) <+: t.landing (b.target bs) ↔ as <+: bs := by
  simp [Plan.target, landing_under]

theorem landing_target_inj (b : Plan) (t : FileTree) {as bs : List Text} :
    t.landing (b.target as) = t.landing (b.target bs) ↔ as = bs := by
  simp [Plan.target, landing_under]

theorem landing_source_inj (b : Plan) (t : FileTree) {as bs : List Text} :
    t.landing (b.source as) = t.landing (b.source bs) ↔ as = bs := by
  simp [Plan.source, landing_under]

theorem not_mem_of_source (h : t.WellFormed) {e : Entry}
    (hg : t.get? (t.landing (b.source rel)) = some e) : ['.', '.'] ∉ rel := by
  rw [Plan.source, landing_under] at hg
  exact h.not_mem_of_get? hg

theorem Current.settled_not_mem (h : t.WellFormed) (hs : Settled b t rel) : ['.', '.'] ∉ rel := by
  obtain ⟨-, -, -, -, -, content, σ, -, hg, -⟩ := hs
  exact not_mem_of_source h hg

structure Buildable (b : Plan) (t : FileTree) (script : Option SceneScript) (rel : List Text) :
    Prop where
  ne_nil : rel ≠ []
  descends : ['.', '.'] ∉ rel
  file : ∃ content σ, t.get? (t.landing (b.source rel)) = some (.file content σ)
  script : scriptOf b t rel = .ok script

theorem Kept.buildable (h : Kept b t u) (hs : Buildable b t script rel) :
    Buildable b u script rel where
  ne_nil := hs.ne_nil
  descends := hs.descends
  file := by
    rw [h.get?_source]
    exact hs.file
  script := (h.scriptPath hs.descends).load.trans hs.script

theorem wrote_target_kept (ht : t.WellFormed) (hb : b.Layout)
    (hw : t.Wrote u (b.target rel) c now) : Kept b t u := by
  refine kept_of_entries ht hw.wellFormed hb hw.place (fun _ => ?_) fun xs => ?_
  · exact hw.get?_of_not_isPrefix fun hp => hb.apart t hp
  · have hne : t.landing (b.scriptIn (b.source xs)) ≠ t.landing (b.target rel) := fun he => by
      have hp : t.landing (b.target rel) <+: t.landing (b.scriptIn (b.source xs)) :=
        he ▸ List.prefix_refl _
      exact hb.script_apart t hp
    exact (hw.get?_other _ hne).imp_right fun hg => ⟨hg.1, hg.2.1⟩

theorem Current.wrote_target (h : Current b t now) (hb : b.Layout)
    (hs : Buildable b t script rel) (hw : t.Wrote u (b.target rel) c now) (hf : Fresh b t rel c) :
    Built b t u now ∧ Settled b u rel := by
  have hk := wrote_target_kept h.wellFormed hb hw
  have hland := FileTree.landing_congr hw.place
  have hself : Settled b u rel :=
    ⟨hs.ne_nil, c, now, hland _ ▸ hw.get?_self, hk.fresh hs.descends hf⟩
  obtain ⟨content, σ, hsrc⟩ := hs.file
  refine ⟨⟨⟨hw.wellFormed, fun r hne hd => ?_, fun r c' τ hne hg => ?_⟩, hk,
    fun l hd => hw.directory hd, fun r hr => ?_⟩, hself⟩
  · rw [hland] at hd
    rw [hk.get?_source]
    by_cases hr : r = rel
    · rw [hr, hw.get?_self] at hd
      cases hd
    · rcases hw.get?_other _ (mt (landing_target_inj b t).mp hr) with hg | ⟨-, -, hpre⟩
      · exact h.directory r hne (hg ▸ hd)
      · obtain ⟨m, rfl⟩ := (target_isPrefix_iff b t).mp hpre
        rw [landing_source] at hsrc
        exact h.wellFormed.above (fun hm => hr (by simp [hm])) hsrc
  · rw [hland] at hg
    rw [hk.get?_source]
    by_cases hr : r = rel
    · subst hr
      rw [hw.get?_self] at hg
      obtain ⟨rfl, rfl⟩ := Entry.file.inj (Option.some.inj hg)
      exact ⟨Int.le_refl _, content, σ, hsrc, .inr (.inr (hk.fresh hs.descends hf))⟩
    · obtain ⟨hτ, content', σ', hsrc', hold⟩ := h.file r c' τ hne
        ((hw.get?_of_file (mt (landing_target_inj b t).mp hr)).mp hg)
      have hdesc := not_mem_of_source h.wellFormed hsrc'
      refine ⟨hτ, content', σ', hsrc', ?_⟩
      rw [Plan.scriptPath, (hk.scriptPath hdesc).time]
      exact hold.imp_right fun hold => hold.imp_right (hk.fresh hdesc)
  · by_cases he : r = rel
    · exact he ▸ hself
    · have hdesc := Current.settled_not_mem h.wellFormed hr
      obtain ⟨hne, c', τ, hg, hf'⟩ := hr
      refine ⟨hne, c', τ, ?_, hk.fresh hdesc hf'⟩
      rw [hland]
      exact (hw.get?_of_file (mt (landing_target_inj b t).mp he)).mpr hg

theorem Current.settled_of_upToDate (h : Current b t now) (hb : b.Layout)
    (hs : Buildable b t script rel)
    (hup : upToDate (t.timeOf (b.source rel)) (t.timeOf (b.target rel))
      ((script.map SceneScript.time).getD 0) (t.hasPath (b.target rel)) forced = true) :
    Settled b t rel := by
  obtain ⟨-, hpresent, hsource, hscript⟩ := upToDate_iff.mp hup
  obtain ⟨content, σ, hsrc⟩ := hs.file
  have htarget := h.wellFormed.entry_eq (hb.target hs.descends)
  rw [time_of_loadScript hs.script] at hscript
  rw [FileTree.timeOf, h.wellFormed.entry_eq (hb.source hs.descends), hsrc] at hsource
  rw [FileTree.timeOf.eq_def t (b.target rel), htarget] at hsource hscript
  rw [FileTree.hasPath, htarget] at hpresent
  obtain ⟨e, he⟩ := Option.isSome_iff_exists.mp hpresent
  cases e with
  | directory =>
    rw [h.directory rel hs.ne_nil he] at hsrc
    cases hsrc
  | file c τ =>
    obtain ⟨-, content', σ', hsrc', hold⟩ := h.file rel c τ hs.ne_nil he
    obtain ⟨rfl, rfl⟩ := Entry.file.inj (Option.some.inj (hsrc.symm.trans hsrc'))
    rw [he] at hsource hscript
    rcases hold with hold | hold | hold
    · exact absurd hsource (Int.not_lt.mpr hold)
    · exact absurd hscript (Int.not_lt.mpr hold)
    · exact ⟨hs.ne_nil, c, τ, he, hold⟩

theorem Current.buildFile (h : Current b t now) (hb : b.Layout) (hs : Buildable b t script rel)
    {r : FileResult} (hr : buildFile b t script forced (b.source rel) now = ⟨u, .ok r⟩)
    (hf : r.failed = false) : Built b t u now ∧ Settled b u rel := by
  rw [Build.buildFile, practiceOf_source] at hr
  simp only at hr
  split at hr
  · next hup =>
    obtain rfl := (Done.mk.inj hr).1
    exact ⟨h.built, h.settled_of_upToDate hb hs hup⟩
  · have htarget := hb.target hs.descends
    obtain ⟨x, content, c, hx, hread, hc, hw⟩ := regenerate_ok h.wellFormed htarget hr hf
    have hwrote := hx.wrote htarget hw
    obtain ⟨hnull, σ, hsrc⟩ := (hx.wellFormed.readBytes_eq_ok_iff (hb.source hs.descends)).mp hread
    rw [FileTree.landing_congr hx.place] at hsrc
    exact h.wrote_target hb hs hwrote
      ⟨script, content, σ, hs.script, hx.get?_of_file hsrc, hc, hnull, hwrote.hasNull⟩

theorem wrote_source_target (hb : b.Layout) {r : List Text}
    (hw : t.Wrote u (b.source r) content now) (rel : List Text) :
    u.get? (t.landing (b.target rel)) = t.get? (t.landing (b.target rel)) :=
  hw.get?_of_not_isPrefix fun hp => hb.apart' t hp

theorem wrote_source_script (ht : t.WellFormed) (hb : b.Layout) {r : List Text}
    (hw : t.Wrote u (b.source r) content now) (hr : ['.', '.'] ∉ rel) :
    u.timeOf (b.scriptPath rel) = now ∨ SameScript b t u (b.home rel) := by
  have hd := hb.scriptPath hr
  have htp := ht.entry_eq hd
  have hup := hw.wellFormed.entry_eq hd
  rw [FileTree.landing_congr hw.place] at hup
  by_cases hl : t.landing (b.scriptPath rel) = t.landing (b.source r)
  · left
    rw [FileTree.timeOf, hup, hl, hw.get?_self]
    rfl
  · right
    rw [Plan.scriptPath] at htp hup hl
    apply sameScript_of_entry
    rw [htp, hup]
    exact (hw.get?_other _ hl).imp_right fun hg => ⟨hg.1, hg.2.1⟩

theorem Current.wrote_source (h : Current b t now) (hb : b.Layout) {r : List Text}
    (hw : t.Wrote u (b.source r) content now) : Current b u now := by
  have hland := FileTree.landing_congr hw.place
  refine ⟨hw.wellFormed, fun rel hne hd => ?_, fun rel c τ hne hg => ?_⟩
  · rw [hland, wrote_source_target hb hw] at hd
    rw [hland]
    exact hw.directory (h.directory rel hne hd)
  · rw [hland, wrote_source_target hb hw] at hg
    rw [hland]
    obtain ⟨hτ, content', σ, hsrc, hold⟩ := h.file rel c τ hne hg
    refine ⟨hτ, ?_⟩
    by_cases hr : rel = r
    · subst hr
      exact ⟨content, now, hw.get?_self, .inl hτ⟩
    · have hsrc' := (hw.get?_of_file (mt (landing_source_inj b t).mp hr)).mpr hsrc
      refine ⟨content', σ, hsrc', ?_⟩
      rcases wrote_source_script h.wellFormed hb hw (not_mem_of_source h.wellFormed hsrc) with
        hnow | hsame
      · exact .inr (.inl (hnow ▸ hτ))
      · rw [Plan.scriptPath, hsame.time]
        refine hold.imp_right fun hold => hold.imp_right ?_
        rintro ⟨script, content'', σ'', hs, hg', hrest⟩
        obtain ⟨rfl, rfl⟩ := Entry.file.inj (Option.some.inj (hsrc.symm.trans hg'))
        exact ⟨script, content', σ, hsame.load.trans hs, hland _ ▸ hsrc', hrest⟩

theorem Current.wait (h : Current b t now) {later : Int} (hl : now ≤ later) :
    Current b t later where
  wellFormed := h.wellFormed
  directory := h.directory
  file rel c τ hne hg := by
    obtain ⟨hτ, hrest⟩ := h.file rel c τ hne hg
    exact ⟨Int.le_trans hτ hl, hrest⟩

end Coursework.Build
