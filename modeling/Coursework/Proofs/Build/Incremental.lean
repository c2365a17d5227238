import Mathlib.Logic.Relation
import Coursework.Proofs.Build.Exercises

namespace Coursework

namespace FileTree

variable {t : FileTree} {l m : Location} {rel : List Text}

def Vacant (t : FileTree) (l : Location) : Prop := ∀ rel, rel ≠ [] → t.get? (l ++ rel) = none

theorem vacant_iff : t.Vacant l ↔
    ∀ m ∈ Keyed.keys t.entries, (Path.below? l m).all List.isEmpty = true := by
  constructor
  · intro h m hm
    cases hb : Path.below? l m with
    | none => rfl
    | some rel =>
      by_contra hrel
      have hne : rel ≠ [] := fun hnil => hrel (by rw [hnil]; rfl)
      have hnone := h rel hne
      obtain rfl := Path.below?_eq_some_iff.mp hb
      rw [get?, if_neg fun hn => hne (List.append_eq_nil_iff.mp hn).2] at hnone
      exact Keyed.get?_eq_none_iff.mp hnone hm
  · intro h rel hne
    cases hg : t.get? (l ++ rel) with
    | none => rfl
    | some e =>
      have hnil : l ++ rel ≠ [] := fun hn => hne (List.append_eq_nil_iff.mp hn).2
      have hall := h _ (Keyed.mem_keys_of_mem (mem_keys_of_get? hnil hg))
      rw [Path.below?_eq_some_iff.mpr rfl] at hall
      exact absurd (List.isEmpty_iff.mp hall) hne

instance : Decidable (t.Vacant l) := decidable_of_iff _ vacant_iff.symm

def emptied (t : FileTree) (l : Location) : FileTree :=
  { t with entries := t.entries.filter fun e => (Path.below? l e.1).all List.isEmpty }

theorem vacant_emptied (t : FileTree) (l : Location) : (t.emptied l).Vacant l := by
  intro rel hr
  have hne : l ++ rel ≠ [] := fun hn => hr (List.append_eq_nil_iff.mp hn).2
  have hb : Path.below? l (l ++ rel) = some rel := Path.below?_eq_some_iff.mpr rfl
  rw [get?, if_neg hne, emptied,
    Keyed.get?_filter t.entries (fun m => (Path.below? l m).all List.isEmpty), hb]
  simp [hr]

theorem get?_emptied (h : ∀ rel, rel ≠ [] → m ≠ l ++ rel) : (t.emptied l).get? m = t.get? m := by
  have hall : (Path.below? l m).all List.isEmpty = true := by
    cases hb : Path.below? l m with
    | none => rfl
    | some rel =>
      by_contra hrel
      refine h rel (fun hnil => hrel ?_) (Path.below?_eq_some_iff.mp hb)
      rw [hnil]
      rfl
  rw [get?, get?, emptied,
    Keyed.get?_filter t.entries (fun m => (Path.below? l m).all List.isEmpty), hall, if_pos rfl]

theorem WellFormed.emptied (h : t.WellFormed) (hp : ∀ rel, rel ≠ [] → t.place ≠ l ++ rel) :
    (t.emptied l).WellFormed where
  keys := by
    refine h.keys.sublist ?_
    exact List.filter_sublist.map _
  names m hm := by
    apply h.names m
    exact (List.filter_sublist.map _).subset hm
  parents m name e he := by
    have hout : ∀ rel, rel ≠ [] → m ++ [name] ≠ l ++ rel := by
      intro rel hr hm
      rw [hm, vacant_emptied t l rel hr] at he
      cases he
    rw [get?_emptied hout] at he
    have habove : ∀ rel, rel ≠ [] → m ≠ l ++ rel := fun rel _ hm =>
      hout (rel ++ [name]) (by simp) (by rw [hm, List.append_assoc])
    rw [get?_emptied habove]
    exact h.parents m name e he
  here := (get?_emptied hp).trans h.here
  place := h.place

end FileTree

namespace Build

variable {b : Plan} {t u t₀ : FileTree} {now now₀ : Int} {s s' : FileTree × Int}

def Plan.emptied (b : Plan) (t : FileTree) : FileTree := t.emptied (t.landing b.roots.practices)

theorem kept_emptied (h : t.WellFormed) (he : (b.emptied t).WellFormed) (hb : b.Layout) :
    Kept b t (b.emptied t) := by
  refine kept_of_entries h he hb rfl (fun rel => ?_) fun xs => .inl ?_
  · refine FileTree.get?_emptied fun rel' _ heq => ?_
    rw [← FileTree.landing_under] at heq
    have hp : t.landing (b.target rel') <+: t.landing (b.source rel) := heq ▸ List.prefix_refl _
    exact hb.apart' t hp
  · refine FileTree.get?_emptied fun rel' _ heq => ?_
    rw [← FileTree.landing_under] at heq
    have hp : t.landing (b.target rel') <+: t.landing (b.scriptIn (b.source xs)) :=
      heq ▸ List.prefix_refl _
    exact hb.script_apart t hp

theorem current_of_vacant (h : t.WellFormed) (hv : t.Vacant (t.landing b.roots.practices))
    (now : Int) : Current b t now := by
  have hnone : ∀ rel, rel ≠ [] → t.get? (t.landing (b.target rel)) = none := fun rel hne => by
    rw [Plan.target, FileTree.landing_under]
    exact hv rel hne
  refine ⟨h, fun rel hne hd => ?_, fun rel c τ hne hg => ?_⟩
  · rw [hnone rel hne] at hd
    cases hd
  · rw [hnone rel hne] at hg
    cases hg

/-- What may happen to a tree and the clock: time passes, a file below the solutions root is
written with the directories on the way to it, or a build reports no failure. -/
inductive Step (b : Plan) : FileTree × Int → FileTree × Int → Prop
  | wait {t now later} (h : now ≤ later) : Step b (t, now) (t, later)
  | edit {t u v now rel content} (hr : rel ≠ []) (hd : ['.', '.'] ∉ rel)
      (hm : t.ensureDirectories (b.source rel).parent = (u, none))
      (hw : u.writeBytes (b.source rel) content now = .ok v) : Step b (t, now) (v, now)
  | build {t now forced pattern} (ha : (buildAll b t forced pattern now).abort = none)
      (hok : (buildAll b t forced pattern now).result.ok = true) :
      Step b (t, now) ((buildAll b t forced pattern now).tree, now)
  | buildDirectory {t now forced pattern ds d} (he : b.exercises t none = .ok ds) (hd : d ∈ ds)
      (ha : (buildDirectory b t forced pattern now d).abort = none)
      (hok : (buildDirectory b t forced pattern now d).result.ok = true) :
      Step b (t, now) ((buildDirectory b t forced pattern now d).tree, now)

theorem Step.current (hb : b.Layout) (hs : Step b s s') (h : Current b s.1 s.2) :
    Current b s'.1 s'.2 ∧ s'.1.place = s.1.place := by
  cases hs with
  | wait hl => exact ⟨h.wait hl, rfl⟩
  | edit hr hd hm hw =>
    have hsd := hb.source hd
    have hx := (h.wellFormed.ensureDirectories hsd.parent).1
    rw [hm] at hx
    have hwrote := hx.wrote hsd hw
    exact ⟨h.wrote_source hb hwrote, hwrote.place⟩
  | build ha hok =>
    have hbuilt := (h.buildAll hb ha hok).1
    exact ⟨hbuilt.current, hbuilt.kept.place⟩
  | buildDirectory he hd ha hok =>
    have hbuilt := (h.buildDirectory hb (isExercise_of_mem h.wellFormed hb.toSeparate he hd) ha hok).1
    exact ⟨hbuilt.current, hbuilt.kept.place⟩

theorem run_current (hb : b.Layout) (hrun : Relation.ReflTransGen (Step b) s s')
    (h : Current b s.1 s.2) : Current b s'.1 s'.2 ∧ s'.1.place = s.1.place := by
  induction hrun with
  | refl => exact ⟨h, rfl⟩
  | tail _ hstep ih =>
    obtain ⟨hcurrent, hplace⟩ := hstep.current hb ih.1
    exact ⟨hcurrent, hplace.trans ih.2⟩

instance decidableExistsOk {ε α : Type} {e : Except ε α} {P : α → Prop} [∀ x, Decidable (P x)] :
    Decidable (∃ x, e = .ok x ∧ P x) :=
  match e with
  | .ok x => decidable_of_iff (P x) (by simp)
  | .error _ => isFalse (by simp)

def SamePractice (b : Plan) (t u : FileTree) (p : Path) : Prop :=
  ∃ q, b.roots.practiceOf p = .ok q ∧ ∃ c, t.readBytes q = .ok c ∧ u.readBytes q = .ok c

instance : DecidablePred (SamePractice b t u) := fun p =>
  inferInstanceAs (Decidable (∃ q, b.roots.practiceOf p = .ok q ∧
    ∃ c, t.readBytes q = .ok c ∧ u.readBytes q = .ok c))

def SamePractices (b : Plan) (t u : FileTree) : Prop :=
  ∃ ds, b.exercises t none = .ok ds ∧ ∀ d ∈ ds, ∃ files, b.filesOf t d none = .ok files ∧
    ∀ p ∈ files, SamePractice b t u p

instance : Decidable (SamePractices b t u) :=
  inferInstanceAs (Decidable (∃ ds, b.exercises t none = .ok ds ∧ ∀ d ∈ ds,
    ∃ files, b.filesOf t d none = .ok files ∧ ∀ p ∈ files, SamePractice b t u p))

theorem Settled.readBytes (h : t.WellFormed) (hb : b.Layout) {rel : List Text}
    (hs : Settled b t rel) : ∃ c, Fresh b t rel c ∧ t.readBytes (b.target rel) = .ok c := by
  have hr := Current.settled_not_mem h hs
  obtain ⟨-, c, τ, hg, hf⟩ := hs
  refine ⟨c, hf, (h.readBytes_eq_ok_iff (hb.target hr)).mpr ⟨?_, τ, hg⟩⟩
  obtain ⟨-, -, -, -, -, -, -, hn⟩ := hf
  exact hn

theorem Settled.makable_emptied (h : t.WellFormed) (he : (b.emptied t).WellFormed) (hb : b.Layout)
    {rel : List Text} (hs : Settled b t rel) : Makable b (b.emptied t) rel := by
  have hr := Current.settled_not_mem h hs
  obtain ⟨hne, c, τ, hg, hf⟩ := hs
  rw [Plan.target, FileTree.landing_under] at hg
  refine ⟨?_, c, (kept_emptied h he hb).fresh hr hf⟩
  have hroot : ∀ rel, rel ≠ [] → t.landing b.roots.practices ≠ t.landing b.roots.practices ++ rel :=
    fun rel hrel he => hrel (List.append_right_eq_self.mp he.symm)
  exact (FileTree.get?_emptied hroot).trans (h.above hne hg)

theorem samePractices_of_settled (ht : t.WellFormed) (hu : u.WellFormed) (hb : b.Layout)
    (hk : Kept b t u) {ds : List Path} (he : b.exercises t none = .ok ds)
    (hds : ∀ d ∈ ds, Listed b t d none fun rel => Settled b t rel ∧ Settled b u rel) :
    SamePractices b t u := by
  refine ⟨ds, he, fun d hd => ?_⟩
  have hex := isExercise_of_mem ht hb.toSeparate he hd
  obtain ⟨name, script, files, hn, hs, hf, hsettled⟩ := hds d hd
  refine ⟨files, hf, fun p hp => ?_⟩
  obtain ⟨rel, rfl, -⟩ := buildable_of_mem ht hb hex hn hs hf hp
  obtain ⟨hst, hsu⟩ := hsettled rel hp
  have hr := Current.settled_not_mem ht hst
  obtain ⟨c, hc, hread⟩ := hst.readBytes ht hb
  obtain ⟨c', hc', hread'⟩ := hsu.readBytes hu hb
  obtain rfl := (hk.fresh hr hc).unique hc'
  exact ⟨b.target rel, practiceOf_source b rel, c, hread, hread'⟩

theorem Built.exercises (h : Built b t u now) (ht : t.WellFormed) (hb : b.Layout) {ds : List Path}
    (he : b.exercises t none = .ok ds) (hds : ∀ d ∈ ds, Listed b u d none (Settled b u)) :
    ∃ ds', b.exercises u none = .ok ds' ∧ ∀ d ∈ ds', Listed b u d none (Settled b u) := by
  obtain ⟨ds', he', hmem⟩ := h.kept.exercises ht h.current.wellFormed hb he
  exact ⟨ds', he', fun d hd => hds d ((hmem d).mp hd)⟩

/-- The build at the end of a run that starts without practices leaves the practices of a forced
build of the same solutions without practices, which does not fail. Scripts turn scenes into scenes
and touch no file, all that one build writes has one time, and directories have none. -/
theorem incremental_agrees (hb : b.Layout) (h : t₀.WellFormed)
    (hv : t₀.Vacant (t₀.landing b.roots.practices))
    (hrun : Relation.ReflTransGen (Step b) (t₀, now₀) (t, now))
    (ha : (buildAll b t false none now).abort = none)
    (hok : (buildAll b t false none now).result.ok = true)
    (hu : (buildAll b t false none now).tree = u) (time : Int) :
    (buildAll b (b.emptied u) true none time).abort = none ∧
      (buildAll b (b.emptied u) true none time).result.ok = true ∧
      SamePractices b u (buildAll b (b.emptied u) true none time).tree := by
  obtain ⟨hcurrent, hplace⟩ := run_current hb hrun (current_of_vacant h hv now₀)
  obtain ⟨hbuilt, ds, he, hds⟩ := hcurrent.buildAll hb ha hok
  rw [hu] at hbuilt hds
  obtain ⟨ds, he, hds⟩ := hbuilt.exercises hcurrent.wellFormed hb he hds
  have hwf := hbuilt.current.wellFormed
  -- nothing lay below the practices root at first, so paths are not read from there
  have hout : ∀ rel, rel ≠ [] → u.place ≠ u.landing b.roots.practices ++ rel := by
    intro rel hne hp
    have hpu : u.place = t₀.place := hbuilt.kept.place.trans hplace
    rw [FileTree.landing_congr hpu, hpu] at hp
    have hnone := hv rel hne
    rw [← hp, h.here] at hnone
    cases hnone
  have hclean : Current b (b.emptied u) time :=
    current_of_vacant (hwf.emptied hout) (FileTree.vacant_emptied u _) time
  have hkept := kept_emptied hwf hclean.wellFormed hb
  obtain ⟨ds', he', hmem⟩ := hkept.exercises hwf hclean.wellFormed hb he
  have hmakable : ∀ d ∈ ds', Listed b (b.emptied u) d none (Makable b (b.emptied u)) := by
    intro d hd
    have hd := (hmem d).mp hd
    exact (hkept.listed hwf hclean.wellFormed hb (isExercise_of_mem hwf hb.toSeparate he hd) (hds d hd)).imp
      fun _ hs => hs.makable_emptied hwf hclean.wellFormed hb
  obtain ⟨ha', hok'⟩ := hclean.buildAll_forced hb he' hmakable
  obtain ⟨hbuilt', ds'', he'', hds'⟩ := hclean.buildAll hb ha' hok'
  obtain rfl := Except.ok.inj (he'.symm.trans he'')
  have hwf' := hbuilt'.current.wellFormed
  have hk := hkept.trans hbuilt'.kept
  refine ⟨ha', hok', samePractices_of_settled hwf hwf' hb hk he fun d hd => (hds d hd).and ?_⟩
  have hex := hk.isExercise (isExercise_of_mem hwf hb.toSeparate he hd)
  exact hk.symm.listed hwf' hwf hb hex (hds' d ((hmem d).mpr hd))

def sample (script : Text) : Plan where
  roots := Roots.ofNames (Path.ofText "/w") "s" "p" "res://"
  scriptName := some script

def sampleScript : Entry := .file (Utf8.encode (Scene.Script.heading ++
  ("[\x7b\"kind\": \"function\", \"name\": \"a\", " : Text) ++
  ("\"steps\": [\x7b\"do\": \"rename\", \"name\": \"B\"\x7d]\x7d]" : Text))) 5

def sampleTree (more : List (Location × Entry)) : FileTree where
  entries :=
    (["w"], .directory) :: (["w", "s"], .directory) ::
      (["w", "s", "a.tscn"], .file (Utf8.encode "[gd_scene]\n\n[node name=\"A\"]\n") 5) :: more

def besideTree : FileTree := sampleTree [(["w", "s", "diff.py"], sampleScript)]

def withinTree : FileTree :=
  sampleTree [(["w", "s", "l"], .directory), (["w", "s", "l", "c.py"], sampleScript)]

def besideBuilt (b : Plan) : Run BuildReport := buildAll b besideTree false none 6

def newFile (b : Plan) : Path := b.source ["l", "test_b.gd"]

def besideEdited (b : Plan) : FileTree :=
  let u := ((besideBuilt b).tree.ensureDirectories (newFile b).parent).1
  (u.writeBytes (newFile b) [] 7).toOption.getD {}

def withinBuilt (b : Plan) : Run BuildReport := buildAll b withinTree false none 6

def withinForced (b : Plan) : Run BuildReport := buildAll b (withinBuilt b).tree true none 6

def lastBuild (b : Plan) (t : FileTree) : Run BuildReport := buildAll b t false none 7

def cleanBuild (b : Plan) (t : FileTree) : Run BuildReport :=
  buildAll b (b.emptied (lastBuild b t).tree) true none 8

theorem beside_run {b : Plan}
    (h : (besideBuilt b).abort = none ∧ (besideBuilt b).result.ok = true ∧
      ((besideBuilt b).tree.ensureDirectories (newFile b).parent).2 = none ∧
      ((besideBuilt b).tree.ensureDirectories (newFile b).parent).1.writeBytes (newFile b) [] 7 =
        .ok (besideEdited b)) :
    Relation.ReflTransGen (Step b) (besideTree, 6) (besideEdited b, 7) := by
  obtain ⟨ha, hok, hm, hw⟩ := h
  have hbuild : Step b (besideTree, 6) ((besideBuilt b).tree, 6) := .build ha hok
  have hwait : Step b ((besideBuilt b).tree, 6) ((besideBuilt b).tree, 7) := .wait (by decide)
  have hedit : Step b ((besideBuilt b).tree, 7) (besideEdited b, 7) :=
    .edit (by decide) (by decide) (Prod.ext rfl hm) hw
  exact ((Relation.ReflTransGen.single hbuild).tail hwait).tail hedit

theorem within_run {b : Plan}
    (h : (withinBuilt b).abort = none ∧ (withinBuilt b).result.ok = true ∧
      (withinForced b).abort = none ∧ (withinForced b).result.ok = true) :
    Relation.ReflTransGen (Step b) (withinTree, 6) ((withinForced b).tree, 7) := by
  obtain ⟨ha, hok, ha', hok'⟩ := h
  have hbuild : Step b (withinTree, 6) ((withinBuilt b).tree, 6) := .build ha hok
  have hforced : Step b ((withinBuilt b).tree, 6) ((withinForced b).tree, 6) := .build ha' hok'
  have hwait : Step b ((withinForced b).tree, 6) ((withinForced b).tree, 7) := .wait (by decide)
  exact ((Relation.ReflTransGen.single hbuild).tail hforced).tail hwait

theorem sample_separate (script : Text) : Plan.Separate (sample script).roots :=
  separate_ofNames (by decide) (by decide) (by decide) (by decide) (by decide) (by decide)
    (by decide)

theorem incremental_agrees_sample : (sample "diff.py").Layout ∧ besideTree.WellFormed ∧
    besideTree.Vacant (besideTree.landing (sample "diff.py").roots.practices) ∧
    Relation.ReflTransGen (Step (sample "diff.py")) (besideTree, 6)
      (besideEdited (sample "diff.py"), 7) ∧
    (lastBuild (sample "diff.py") (besideEdited (sample "diff.py"))).abort = none ∧
    (lastBuild (sample "diff.py") (besideEdited (sample "diff.py"))).result.ok = true ∧
    SamePractices (sample "diff.py")
      (lastBuild (sample "diff.py") (besideEdited (sample "diff.py"))).tree
      (cleanBuild (sample "diff.py") (besideEdited (sample "diff.py"))).tree := by
  have hb : (sample "diff.py").Layout := ⟨sample_separate _, by decide, by decide⟩
  have hwf : besideTree.WellFormed := by decide +kernel
  have hv : besideTree.Vacant (besideTree.landing (sample "diff.py").roots.practices) := by
    decide +kernel
  have hrun := beside_run (b := sample "diff.py") (by decide +kernel)
  have hlast : (lastBuild (sample "diff.py") (besideEdited (sample "diff.py"))).abort = none ∧
      (lastBuild (sample "diff.py") (besideEdited (sample "diff.py"))).result.ok = true := by
    decide +kernel
  have hsame := incremental_agrees hb hwf hv hrun hlast.1 hlast.2 rfl 8
  exact ⟨hb, hwf, hv, hrun, hlast.1, hlast.2, hsame.2.2⟩

structure Disagrees (b : Plan) (t₀ t : FileTree) : Prop where
  separate : Plan.Separate b.roots
  wellFormed : t₀.WellFormed
  vacant : t₀.Vacant (t₀.landing b.roots.practices)
  run : Relation.ReflTransGen (Step b) (t₀, 6) (t, 7)
  last : (lastBuild b t).abort = none ∧ (lastBuild b t).result.ok = true
  differ : ¬SamePractices b (lastBuild b t).tree (cleanBuild b t).tree

theorem incremental_disagrees :
    Disagrees (sample "l/../diff.py") besideTree (besideEdited (sample "l/../diff.py")) ∧
    Disagrees (sample "/w/p/l/c.py") withinTree (withinForced (sample "/w/p/l/c.py")).tree := by
  constructor
  · refine ⟨sample_separate _, ?_, ?_, beside_run ?_, ?_, ?_⟩ <;> decide +kernel
  · refine ⟨sample_separate _, ?_, ?_, within_run ?_, ?_, ?_⟩ <;> decide +kernel

end Build

end Coursework
