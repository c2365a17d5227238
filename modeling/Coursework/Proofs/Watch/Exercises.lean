import Mathlib
import Coursework.Proofs.Build.Withheld
import Coursework.Watch.Session

namespace Coursework

namespace Path

theorem absolute_of_anchored {p : Path} (hp : p.Descends) (ha : p.anchor ≠ .here)
    (place : List Text) : p.absolute place = p := by
  obtain ⟨anchor, parts⟩ := p
  rw [absolute, normalParts_of_not_mem hp]
  cases anchor with
  | here => exact absurd rfl ha
  | root => rfl
  | doubleRoot => rfl

theorem eq_under_of_relativeTo {p base q : Path} (h : p.relativeTo base = .ok q) :
    p = base.under q.parts := by
  rw [relativeTo] at h
  split at h
  · next ha =>
    split at h
    · next rel hrel =>
      rw [← Except.ok.inj h, under, ← below?_eq_some_iff.mp hrel, ← ha]
    · cases h
  · cases h

end Path

namespace Watch

open Build FileTree

variable {τ : Type} {b : Plan} {t : FileTree} {root p d : Path} {files ds : List Path}
  {forced : Bool} {time σ : Int} {l : Location} {c : Utf8.Bytes}

theorem exerciseFor_eq (hp : p.Descends) (h : exerciseFor root p = .ok (some d)) :
    d = root ∨ ∃ name, name ≠ "__pycache__".toList ∧ name ≠ ['.', '.'] ∧ d = root.under [name] := by
  rw [exerciseFor] at h
  split at h
  · cases h
  · next q hq =>
    split at h
    · cases h
    · next hcache =>
      split at h
      · cases h
      · exact .inl (Option.some.inj (Except.ok.inj h)).symm
      · next name rest hne hparts =>
        refine .inr ⟨name, ?_, ?_, (Option.some.inj (Except.ok.inj h)).symm⟩
        · rintro rfl
          simp [hparts] at hcache
        · rintro rfl
          rw [Path.eq_under_of_relativeTo hq, hparts] at hp
          exact hp (List.mem_append_right _ List.mem_cons_self)

theorem exercises_ok (hc : b.excludes.complete = true) : ∃ ds, b.exercises t none = .ok ds := by
  rw [Plan.exercises]
  split
  · rw [scanWith, hc]
    exact ⟨_, rfl⟩
  · exact ⟨_, rfl⟩

def Hidden (b : Plan) (d : Path) : Prop := ∃ name, d = b.source [name] ∧ name.head? = some '.'

theorem complete_of_filesOf (hf : b.filesOf t d none = .ok files) (hne : files ≠ []) :
    b.excludes.complete = true := by
  obtain ⟨rfl, hc⟩ := scanWith_ok hf
  rw [Bool.or_eq_true] at hc
  exact hc.resolve_right fun he => hne (List.isEmpty_iff.mp he)

theorem mem_exercises_iff (h : t.WellFormed) (hs : b.roots.solutions.Descends) (hp : p.Descends)
    (hd : exerciseFor b.roots.solutions p = .ok (some d)) (hf : b.filesOf t d none = .ok files)
    (hne : files ≠ []) : IsExercise b t d ∧ ∃ ds, b.exercises t none = .ok ds ∧
      (d ∈ ds ↔ ¬Hidden b d) := by
  obtain ⟨ds, hds⟩ := exercises_ok (t := t) (complete_of_filesOf hf hne)
  obtain ⟨q, hq⟩ := List.exists_mem_of_ne_nil _ hne
  obtain ⟨rfl, -⟩ := scanWith_ok hf
  have hroot : b.source [] = b.roots.solutions := Path.under_nil _
  rcases exerciseFor_eq hp hd with rfl | ⟨name, hcache, hup, rfl⟩
  · obtain ⟨rel, -, ht⟩ := (mem_scan_iff h hs).mp hq
    refine ⟨.inl hroot.symm, ds, hds, fun _ => ?_, fun _ => ?_⟩
    · rintro ⟨name, hname, -⟩
      rw [← hroot, source_inj] at hname
      cases hname
    · refine (exercises_none h hs hds _).mpr (.inl ⟨hroot.symm, rel, ?_⟩)
      rw [hroot]
      simpa using ht
  · have hdesc : (b.source [name]).Descends := hs.under (by simpa using Ne.symm hup)
    obtain ⟨rel, -, ⟨c, τ, hg⟩, -, hrel, -⟩ := (mem_scan_iff h hdesc).mp hq
    have hdir : t.get? (t.landing (b.source [name])) = some .directory := h.above hrel hg
    refine ⟨.inr ⟨name, rfl, hdir⟩, ds, hds, ?_⟩
    rw [exercises_none h hs hds]
    constructor
    · rintro (⟨he, -⟩ | ⟨name', he, -, hn⟩) ⟨name'', he', hdot⟩
      · cases source_inj.mp (he.symm.trans he')
      · obtain rfl := List.head_eq_of_cons_eq (source_inj.mp (he.symm.trans he'))
        simp [isExerciseName, hdot] at hn
    · intro hhidden
      refine .inr ⟨name, rfl, hdir, ?_⟩
      have hdot : name.head? ≠ some '.' := fun hdot => hhidden ⟨name, rfl, hdot⟩
      rw [isExerciseName, Bool.and_eq_true, bne_iff_ne, bne_iff_ne]
      exact ⟨hcache, hdot⟩

theorem buildAll_of_buildDirectory (h : t.WellFormed) (hb : Plan.Separate b.roots)
    (he : b.exercises t none = .ok ds) (haloof : ∀ e ∈ ds, Aloof b t (b.scriptIn e))
    (ha : (buildAll b t forced none time).abort = none) (hd : d ∈ ds)
    (hl : (buildDirectory b t forced none time d).tree.get? l = some (.file c σ))
    (hnew : t.get? l ≠ some (.file c σ)) :
    (buildAll b t forced none time).tree.get? l = some (.file c σ) := by
  obtain ⟨r, -, halone⟩ := exists_of_forall₂ (buildAll_alone h hb he haloof ha) hd
  have hex := isExercise_of_mem h hb he hd
  obtain ⟨_, _, _, hq⟩ := (hex.inSolutions h).practiceOf
  have hbelow : Below b t d l := by
    by_contra hout
    rcases (buildDirectory_below h hq forced none time).outside l hout with hg | ⟨-, hg⟩
    · exact hnew (hg ▸ hl)
    · rw [hg] at hl
      cases hl
  exact (halone.files l hbelow c σ).mpr hl

theorem buildAll_of_not_mem (h : t.WellFormed) (hb : Plan.Separate b.roots)
    (he : b.exercises t none = .ok ds) (hd : IsExercise b t d) (hnot : d ∉ ds)
    (hl : Below b t d l) : (buildAll b t forced none time).tree.get? l = some (.file c σ) ↔
      t.get? l = some (.file c σ) := by
  have hothers : ∀ e ∈ ds, IsExercise b t e ∧ d ≠ e := fun e hm => by
    refine ⟨isExercise_of_mem h hb he hm, ?_⟩
    rintro rfl
    exact hnot hm
  have hx :=
    buildDirectories_alters h hb (.refl h _) (fun e hm => (hothers e hm).1) forced none time
  rw [buildAll, he]
  exact hx.file_iff (not_filled_of_below h hb hd hothers hl)

theorem schedule_tree (s : Session τ) (d : Path) (delay : τ) :
    (s.schedule d delay).tree = s.tree := by
  rw [Session.schedule]
  split <;> rfl

section Session

variable [Zero τ] [Sub τ] [LT τ] [DecidableLT τ] {g : Setting τ} {s : Session τ}

theorem observe_tree (g : Setting τ) (s : Session τ) (c : Change) :
    (s.observe g c).1.tree = s.tree := by
  rw [Session.observe]
  split
  · split
    · rfl
    · rfl
    · split
      · exact schedule_tree _ _ _
      · rfl
  · rfl

theorem observeAll_tree (g : Setting τ) (s : Session τ) (cs : List Change) :
    (s.observeAll g cs).1.tree = s.tree := by
  induction cs generalizing s with
  | nil => rfl
  | cons c cs ih =>
    have hc := observe_tree g s c
    rw [Session.observeAll]
    cases ho : s.observe g c with
    | mk t x =>
      rw [ho] at hc
      cases x with
      | error e => exact hc
      | ok d => exact (ih t).trans hc

theorem rebuild_tree (g : Setting τ) (s : Session τ) (d : Path) (interlude : Option Interlude)
    (time : Int) : (s.rebuild g d interlude time).1.tree =
      (buildDirectory g.plan s.tree false none time d).tree := by
  unfold Session.rebuild
  simp only
  split
  · rfl
  · cases interlude with
    | none =>
      simp only
      split <;> rfl
    | some i =>
      simp only
      split
      · exact observeAll_tree g _ _
      · split
        · exact observeAll_tree g _ _
        · exact observeAll_tree g _ _

/-- What a rebuild does to an exercise with a visible name, a build of all does as well; an exercise
with a hidden name is published by rebuilds alone. -/
theorem rebuild_within_build (h : s.tree.WellFormed) (hs : b.roots.solutions.Descends)
    (hroot : b.roots.solutions.anchor ≠ .here) (timing : Timing τ) (hp : p.Descends)
    (hd : exerciseFor (Setting.ofPlan b s.tree.place timing).root p = .ok (some d))
    (hf : b.filesOf s.tree d none = .ok files) (hne : files ≠ []) (interlude : Option Interlude)
    (time : Int) :
    let rebuilt := (s.rebuild (Setting.ofPlan b s.tree.place timing) d interlude time).1.tree
    let built := buildAll b s.tree false none time
    ∃ ds, b.exercises s.tree none = .ok ds ∧ (d ∈ ds ↔ ¬Hidden b d) ∧
      (Plan.Separate b.roots → ¬Hidden b d → (∀ e ∈ ds, Aloof b s.tree (b.scriptIn e)) →
        built.abort = none →
        ∀ l c σ, rebuilt.get? l = some (.file c σ) → s.tree.get? l ≠ some (.file c σ) →
          built.tree.get? l = some (.file c σ)) ∧
      (Plan.Separate b.roots → Hidden b d →
        (∀ l c σ, Below b s.tree d l →
          (built.tree.get? l = some (.file c σ) ↔ s.tree.get? l = some (.file c σ))) ∧
        ((buildDirectory b s.tree false none time d).abort = none →
          (buildDirectory b s.tree false none time d).result.ok = true →
          ∀ q ∈ files, ∃ x, b.roots.practiceOf q = .ok x ∧
            (s.tree.get? (s.tree.landing x) ≠ some .directory →
              ∃ c σ, rebuilt.get? (s.tree.landing x) = some (.file c σ)))) := by
  have hwatched : (Setting.ofPlan b s.tree.place timing).root = b.roots.solutions :=
    Path.absolute_of_anchored hs hroot _
  rw [hwatched] at hd
  obtain ⟨hex, ds, hds, hmem⟩ := mem_exercises_iff h hs hp hd hf hne
  have hplan : (Setting.ofPlan b s.tree.place timing).plan = b := rfl
  simp only [rebuild_tree, hplan]
  refine ⟨ds, hds, hmem, fun hb hvisible haloof ha l c σ hl hnew => ?_,
    fun hb hhidden => ⟨?_, ?_⟩⟩
  · exact buildAll_of_buildDirectory h hb hds haloof ha (hmem.mpr hvisible) hl hnew
  · exact fun l c σ hl => buildAll_of_not_mem h hb hds hex (fun hm => hmem.mp hm hhidden) hl
  · intro ha hok q hq
    obtain ⟨rel, rfl, -⟩ := solution_of_mem h hb hex hf hq
    exact ⟨_, practiceOf_source b rel, fun hfree =>
      buildDirectory_publishes h hb hex ⟨files, hf, hq⟩ hfree ha hok⟩

end Session

def hiddenPlan : Plan where
  roots := Roots.ofNames (Path.ofText "/w") "s" "p" "res://"

def hiddenTree : FileTree where
  entries := [
    (["w"], .directory),
    (["w", "s"], .directory),
    (["w", "s", ".old"], .directory),
    (["w", "s", ".old", "a.txt"], .file [] 5)]

def hiddenSession : Session Int := { tree := hiddenTree, clock := 0 }

def hiddenSetting : Setting Int := Setting.ofPlan hiddenPlan [] ⟨1000, id⟩

def hiddenRebuilt : FileTree :=
  (hiddenSession.rebuild hiddenSetting (hiddenPlan.source [".old"]) none 6).1.tree

theorem rebuild_within_build_hidden : hiddenTree.WellFormed ∧ Plan.Separate hiddenPlan.roots ∧
    Hidden hiddenPlan (hiddenPlan.source [".old"]) ∧
    (∃ c σ, hiddenRebuilt.get? ["w", "p", ".old", "a.txt"] = some (.file c σ)) ∧
    ∀ c σ, (buildAll hiddenPlan hiddenTree false none 6).tree.get? ["w", "p", ".old", "a.txt"] ≠
      some (.file c σ) := by
  have hwf : hiddenTree.WellFormed := by decide +kernel
  have hb : Plan.Separate hiddenPlan.roots :=
    separate_ofNames (by decide) (by decide) (by decide) (by decide) (by decide) (by decide)
      (by decide)
  have hd : exerciseFor hiddenSetting.root (Path.ofText "/w/s/.old/a.txt") =
      .ok (some (hiddenPlan.source [".old"])) := by decide +kernel
  have hf : hiddenPlan.filesOf hiddenTree (hiddenPlan.source [".old"]) none =
      .ok [hiddenPlan.source [".old", "a.txt"]] := by decide +kernel
  have hhidden : Hidden hiddenPlan (hiddenPlan.source [".old"]) := ⟨".old", rfl, rfl⟩
  have hbuilt :
      (buildDirectory hiddenPlan hiddenTree false none 6
        (hiddenPlan.source [".old"])).abort = none ∧
      (buildDirectory hiddenPlan hiddenTree false none 6
        (hiddenPlan.source [".old"])).result.ok = true := by decide +kernel
  obtain ⟨ds, -, -, -, hsplit⟩ := rebuild_within_build (s := hiddenSession) hwf hb.solutions
    (by decide)
    ⟨1000, id⟩ (by decide) hd hf (List.cons_ne_nil _ _) none 6
  obtain ⟨hspared, hpublished⟩ := hsplit hb hhidden
  obtain ⟨x, hx, hfile⟩ := hpublished hbuilt.1 hbuilt.2 _ List.mem_cons_self
  obtain rfl := Except.ok.inj ((practiceOf_source hiddenPlan [".old", "a.txt"]).symm.trans hx)
  have hbelow : Below hiddenPlan hiddenTree (hiddenPlan.source [".old"])
      ["w", "p", ".old", "a.txt"] :=
    ⟨hiddenPlan.target [".old"], ["a.txt"], practiceOf_source _ _, List.cons_ne_nil _ _,
      fun _ => rfl, by decide +kernel⟩
  refine ⟨hwf, hb, hhidden, hfile (by decide +kernel), fun c σ hg => ?_⟩
  have hnone : hiddenTree.get? ["w", "p", ".old", "a.txt"] = none := by decide +kernel
  have hold := (hspared _ c σ hbelow).mp hg
  rw [show hiddenSession.tree = hiddenTree from rfl, hnone] at hold
  cases hold

theorem hidden_rebuilt :
    exerciseFor hiddenSetting.root (Path.ofText "/w/s/.old/a.txt") =
      .ok (some (hiddenPlan.source [".old"])) ∧
    hiddenPlan.filesOf hiddenTree (hiddenPlan.source [".old"]) none =
      .ok [hiddenPlan.source [".old", "a.txt"]] ∧
    hiddenPlan.exercises hiddenTree none = .ok [] ∧
    hiddenRebuilt.get? ["w", "p", ".old", "a.txt"] = some (.file [] 6) ∧
    (buildAll hiddenPlan hiddenTree false none 6).tree = hiddenTree := by
  rw [hiddenRebuilt, rebuild_tree]
  refine ⟨?_, ?_, ?_, ?_, ?_⟩ <;> decide +kernel

end Watch

end Coursework
