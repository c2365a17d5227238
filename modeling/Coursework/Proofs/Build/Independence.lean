import Coursework.Proofs.Build.Changes
import Coursework.Proofs.Build.Lockstep

namespace Coursework.Build

open FileTree (landing_under)

variable {b : Plan} {t u v : FileTree} {d p q x : Path} {forced : Bool} {pattern : Option Text}
  {time : Int} {R : List Text → Prop} {rel : List Text} {ds : List Path} {l : Location}
  {F : Location → Prop}

/-! ### What an exercise sees -/

theorem Solution.apart (h : t.WellFormed) {d' : Path} {rel' m : List Text}
    (hr : Solution b t d rel) (hr' : Solution b t d' rel') (hne : d ≠ d') (hm : m ≠ [])
    (hp : m <+: rel) (hp' : m <+: rel') : False := by
  have hlone : ∀ {d d' : Path} {x : Text} {ys : List Text}, Solution b t d [x] →
      Solution b t d' (x :: ys) → ys = [] := by
    intro d d' x ys hx hxs
    obtain ⟨c, τ, hg⟩ := hx.file
    obtain ⟨c', τ', hg'⟩ := hxs.file
    by_contra hnil
    rw [Plan.source, landing_under] at hg hg'
    have hsplit : t.landing b.roots.solutions ++ x :: ys =
        (t.landing b.roots.solutions ++ [x]) ++ ys := by simp
    rw [hsplit] at hg'
    rw [h.above hnil hg'] at hg
    cases hg
  obtain ⟨x, ms, rfl⟩ := List.exists_cons_of_ne_nil hm
  obtain ⟨xs, rfl⟩ := hp
  obtain ⟨ys, rfl⟩ := hp'
  apply hne
  rw [← hr.home, ← hr'.home]
  rw [List.cons_append] at hr hr' ⊢
  rw [List.cons_append]
  cases hxs : ms ++ xs with
  | nil =>
    rw [hxs] at hr
    rw [hlone hr hr']
  | cons y zs =>
    cases hys : ms ++ ys with
    | nil =>
      rw [hxs] at hr
      rw [hys] at hr'
      cases hlone hr' hr
    | cons y' zs' => rfl

def Reads (b : Plan) (t : FileTree) (R : List Text → Prop) (l : Location) : Prop :=
  (∃ rel, l = t.landing (b.source rel)) ∨
  (∃ rel m, R rel ∧ m ≠ [] ∧ m <+: rel ∧ l = t.landing (b.target m)) ∨
  (b.roots.practices.hasNull = true ∧ l = t.landing b.roots.practices)

def Keeps (b : Plan) (t : FileTree) (d : Path) (l : Location) : Prop :=
  l <+: t.landing b.roots.practices ∨ Below b t d l

theorem below_iff (h : t.WellFormed) (hb : Plan.Separate b.roots) (hd : IsExercise b t d)
    (hl : Below b t d l) : ∃ rel, rel ≠ [] ∧ b.home rel = d ∧ l = t.landing (b.target rel) := by
  obtain ⟨q, rel, hq, hne, hlen, rfl⟩ := hl
  obtain ⟨xs, hx, hdx, hq'⟩ := (hd.inSolutions h).practiceOf
  obtain rfl := Except.ok.inj (hq'.symm.trans hq)
  rw [h.site_eq_landing (hb.target hx), Plan.target, ← landing_under, Path.under_under]
  refine ⟨xs ++ rel, by simp [hne], ?_, rfl⟩
  rcases hd with rfl | ⟨name, rfl, -⟩
  · obtain rfl := source_inj.mp hdx
    have hlen := hlen (Path.under_nil _)
    obtain ⟨x, rfl⟩ := List.length_eq_one_iff.mp hlen
    rfl
  · obtain rfl := source_inj.mp hdx
    obtain ⟨y, ys, rfl⟩ := List.exists_cons_of_ne_nil hne
    rfl

theorem Solution.shared (hr : Solution b t d rel) (hR : R rel)
    (hF : ∀ l, l <+: t.landing b.roots.practices → F l) : Shared b t (Reads b t R) F rel := by
  have hparent := parent_target b hr.ne_nil
  have hdrop : rel.dropLast <+: rel := List.dropLast_prefix rel
  have hland : t.landing (b.target rel).parent = t.landing b.roots.practices ++ rel.dropLast := by
    rw [hparent, Plan.target, landing_under]
  constructor
  · exact hr.descends
  · exact .inl ⟨rel, rfl⟩
  · exact .inr (.inl ⟨rel, rel, hR, hr.ne_nil, List.prefix_refl _, rfl⟩)
  · intro m hm
    rw [hland] at hm
    rcases List.prefix_or_prefix_of_prefix hm (List.prefix_append _ _) with hroot | ⟨k, rfl⟩
    · exact .inr (hF m hroot)
    · by_cases hk : k = []
      · rw [hk, List.append_nil]
        exact .inr (hF _ (List.prefix_refl _))
      · rw [List.prefix_append_right_inj] at hm
        refine .inl (.inr (.inl ⟨rel, k, hR, hk, hm.trans hdrop, ?_⟩))
        rw [Plan.target, landing_under]
  · intro hn
    by_cases hnil : rel.dropLast = []
    · rw [hnil, List.append_nil] at hland
      rw [hparent, hnil, Plan.target, Path.under_nil] at hn
      exact .inr (.inr ⟨hn, hland⟩)
    · exact .inr (.inl ⟨rel, rel.dropLast, hR, hnil, hdrop, by rw [hparent]⟩)

theorem not_filled_of_below (h : t.WellFormed) (hb : Plan.Separate b.roots)
    (hd : IsExercise b t d) (hds : ∀ e ∈ ds, IsExercise b t e ∧ d ≠ e) (hl : Below b t d l) :
    ¬Filled b t (BelongsAny b t pattern ds) l := by
  obtain ⟨rel, -, hhome, rfl⟩ := below_iff h hb hd hl
  rintro ⟨rel', ⟨e, he, hr⟩, hl'⟩
  obtain ⟨hex, hne⟩ := hds e he
  have hs := hr.solution h hb hex
  rw [Plan.target, Plan.target, landing_under, landing_under, List.append_cancel_left_eq] at hl'
  rw [hl', hs.home] at hhome
  exact hne hhome.symm

theorem not_filled_of_above {R : List Text → Prop} (hR : ∀ rel, R rel → rel ≠ []) {l : Location}
    (hl : l <+: t.landing b.roots.practices) : ¬Filled b t R l := by
  rintro ⟨rel, hr, rfl⟩
  have hlen := hl.length_le
  rw [Plan.target, landing_under, List.length_append] at hlen
  have hpos := List.length_pos_iff.mpr (hR rel hr)
  omega

theorem alike_of_others (h : t.WellFormed) (hb : Plan.Separate b.roots) (hd : IsExercise b t d)
    (hds : ∀ e ∈ ds, IsExercise b t e ∧ d ≠ e)
    (hx : t.Alters u (Passed b t (BelongsAny b t pattern ds))
      (Filled b t (BelongsAny b t pattern ds))) :
    t.Alike u (Reads b t (Belongs b t pattern d)) (Keeps b t d) := by
  have hother : ∀ {rel'}, BelongsAny b t pattern ds rel' → ∃ e, d ≠ e ∧ Solution b t e rel' := by
    rintro rel' ⟨e, he, hr⟩
    exact ⟨e, (hds e he).2, hr.solution h hb (hds e he).1⟩
  have hfilled : ∀ l, l <+: t.landing b.roots.practices →
      ¬Filled b t (BelongsAny b t pattern ds) l := by
    intro l hl
    apply not_filled_of_above _ hl
    rintro rel' hr' rfl
    obtain ⟨e, -, hs⟩ := hother hr'
    exact hs.ne_nil rfl
  apply hx.alike h
  · rintro l (⟨rel, rfl⟩ | ⟨rel, m, hr, hm, hpre, rfl⟩ | ⟨hn, rfl⟩)
    · constructor
      · rintro ⟨-, rel', hr', hl⟩
        exact hb.apart t (hl.trans (FileTree.isPrefix_landing_parent t _))
      · rintro ⟨rel', hr', hl⟩
        have hp : t.landing (b.source rel) <+: t.landing (b.target rel') :=
          hl ▸ List.prefix_refl _
        exact hb.apart t hp
    · have hs := hr.solution h hb hd
      have hapart : ∀ rel', BelongsAny b t pattern ds rel' →
          ¬t.landing (b.target m) <+: t.landing (b.target rel') := by
        intro rel' hr' hl
        obtain ⟨e, hne, hs'⟩ := hother hr'
        rw [Plan.target, Plan.target, landing_under, landing_under,
          List.prefix_append_right_inj] at hl
        exact hs.apart h hs' hne hm hpre hl
      constructor
      · rintro ⟨-, rel', hr', hl⟩
        exact hapart rel' hr' (hl.trans (FileTree.isPrefix_landing_parent t _))
      · rintro ⟨rel', hr', hl⟩
        exact hapart rel' hr' (hl ▸ List.prefix_refl _)
    · constructor
      · rintro ⟨hnot, -⟩
        rw [hn] at hnot
        cases hnot
      · exact hfilled _ (List.prefix_refl _)
  · rintro l (hl | hl)
    · exact hfilled l hl
    · exact not_filled_of_below h hb hd hds hl

/-! ### Scripts -/

/-- Whether builds cannot make or unmake what a path names: it does not lie among the practices, and
leads up neither from there nor from a directory above them that is yet to be made. -/
structure Aloof (b : Plan) (t : FileTree) (p : Path) : Prop where
  site : ¬InPractices b t (t.site p)
  turns : ∀ m ∈ t.turnsOf p, ¬InPractices b t m ∧
    (m <+: t.site b.roots.practices → t.get? m ≠ none)

theorem Plan.Layout.aloof (hb : b.Layout) (h : t.WellFormed) (hd : InSolutions b d) :
    Aloof b t (b.scriptIn d) := by
  obtain ⟨xs, hx, rfl⟩ := hd
  have hdesc := hb.scriptIn hx
  constructor
  · rw [inPractices_landing h hb.toSeparate, h.site_eq_landing hdesc]
    intro hp
    rw [← Path.under_nil b.roots.practices] at hp
    exact hb.script_apart t hp
  · rw [FileTree.turnsOf, FileTree.turns_eq_nil hdesc]
    exact fun m hm => absurd hm List.not_mem_nil

theorem loadScript_congr {name : Text}
    (h : ∀ c τ, u.entry (d ++ Path.ofText name) = some (.file c τ) ↔
      t.entry (d ++ Path.ofText name) = some (.file c τ)) :
    loadScript u d name = loadScript t d name := by
  rw [loadScript, loadScript]
  cases ht : t.entry (d ++ Path.ofText name) with
  | none =>
    cases hu : u.entry (d ++ Path.ofText name) with
    | none => rfl
    | some e =>
      cases e with
      | directory => rfl
      | file c τ =>
        rw [(h c τ).mp hu] at ht
        cases ht
  | some e =>
    cases e with
    | file c τ => rw [(h c τ).mpr ht]
    | directory =>
      cases hu : u.entry (d ++ Path.ofText name) with
      | none => rfl
      | some e =>
        cases e with
        | directory => rfl
        | file c τ =>
          rw [(h c τ).mp hu] at ht
          cases ht

theorem loadScript_of_aloof (h : t.WellFormed) (hb : Plan.Separate b.roots)
    (hx : t.Alters u (Passed b t R) (Filled b t R)) {name : Text} (hn : b.scriptName = some name)
    (ha : Aloof b t (b.scriptIn d)) : loadScript u d name = loadScript t d name := by
  rw [Plan.scriptIn, hn, Option.getD_some] at ha
  have hturns : ∀ m ∈ t.turnsOf (d ++ Path.ofText name), u.get? m = t.get? m := by
    intro m hm
    obtain ⟨hout, hthere⟩ := ha.turns m hm
    rcases hx.get? m with hg | ⟨hd, hg, -⟩ | ⟨hs, -⟩
    · exact hg
    · exact absurd hg (hthere ((prefix_or_of_passed h hb hd).resolve_right hout))
    · exact absurd (inPractices_of_filled h hb hs) hout
  have hsite : ∀ c τ, u.get? (t.site (d ++ Path.ofText name)) = some (.file c τ) ↔
      t.get? (t.site (d ++ Path.ofText name)) = some (.file c τ) := fun c τ =>
    hx.file_iff fun hs => ha.site (inPractices_of_filled h hb hs)
  apply loadScript_congr
  intro c τ
  constructor
  · intro he
    refine FileTree.entry_of_turns hx.wellFormed h hx.place.symm (fun m hm hg => ?_) ?_ he
    · rw [FileTree.turnsOf, FileTree.base, hx.place] at hm
      rwa [← hturns m hm]
    · rw [FileTree.site_congr hx.place]
      exact (hsite c τ).mp
  · intro he
    refine FileTree.entry_of_turns h hx.wellFormed hx.place (fun m hm hg => ?_) (hsite c τ).mpr he
    rwa [hturns m hm]

/-! ### Runs -/

structure AsAlone (b : Plan) (t : FileTree) (forced : Bool) (pattern : Option Text) (time : Int)
    (u : FileTree) (d : Path) (r : DirectoryResult) : Prop where
  abort : (buildDirectory b t forced pattern time d).abort = none
  result : r = (buildDirectory b t forced pattern time d).result
  files : ∀ l, Below b t d l → ∀ c τ, u.get? l = some (.file c τ) ↔
    (buildDirectory b t forced pattern time d).tree.get? l = some (.file c τ)

theorem buildDirectory_alone (h : t.WellFormed) (hb : Plan.Separate b.roots)
    (hd : IsExercise b t d) (hds : ∀ e ∈ ds, IsExercise b t e ∧ d ≠ e)
    (hx : t.Alters u (Passed b t (BelongsAny b t pattern ds))
      (Filled b t (BelongsAny b t pattern ds)))
    (ha : Aloof b t (b.scriptIn d)) (forced : Bool) (time : Int) :
    (buildDirectory b t forced pattern time d).Alike (buildDirectory b u forced pattern time d)
      (Reads b t (Belongs b t pattern d)) (Keeps b t d) := by
  have hconfined := confined_of_filled h hb hx
  apply buildDirectory_alike (alike_of_others h hb hd hds hx) hb
  · exact fun name hn => loadScript_of_aloof h hb hx hn ha
  · exact filesOf_congr h hb hconfined (hd.inSolutions h)
  · intro files hf p hp
    obtain ⟨rel, rfl, hs⟩ := solution_of_mem h hb hd hf hp
    exact ⟨rel, rfl, hs.shared ⟨files, hf, hp⟩ fun l hl => .inl hl, hs.file⟩

theorem alters_concat {done : List Path}
    (hx : t.Alters u (Passed b t (BelongsAny b t pattern done))
      (Filled b t (BelongsAny b t pattern done)))
    (hy : u.Alters v (Passed b t (Belongs b t pattern d)) (Filled b t (Belongs b t pattern d))) :
    t.Alters v (Passed b t (BelongsAny b t pattern (done ++ [d])))
      (Filled b t (BelongsAny b t pattern (done ++ [d]))) := by
  have hdone : ∀ rel, BelongsAny b t pattern done rel →
      BelongsAny b t pattern (done ++ [d]) rel := by
    rintro rel ⟨e, he, hr⟩
    exact ⟨e, List.mem_append_left _ he, hr⟩
  have hlast : ∀ rel, Belongs b t pattern d rel →
      BelongsAny b t pattern (done ++ [d]) rel := fun rel hr => ⟨d, by simp, hr⟩
  exact (hx.mono (fun l => Passed.mono hdone) (fun l => Filled.mono hdone)).trans
    (hy.mono (fun l => Passed.mono hlast) (fun l => Filled.mono hlast))

theorem buildDirectories_alone (h : t.WellFormed) (hb : Plan.Separate b.roots) {done : List Path}
    (hds : ∀ d ∈ done ++ ds, IsExercise b t d) (hnodup : (done ++ ds).Nodup)
    (hx : t.Alters u (Passed b t (BelongsAny b t pattern done))
      (Filled b t (BelongsAny b t pattern done)))
    (haloof : ∀ d ∈ ds, Aloof b t (b.scriptIn d))
    (ha : (buildDirectories b forced pattern time u ds).abort = none) :
    List.Forall₂
      (AsAlone b t forced pattern time (buildDirectories b forced pattern time u ds).tree) ds
      (buildDirectories b forced pattern time u ds).result := by
  -- what was built before is what the next exercise must not see
  induction ds generalizing u done with
  | nil => exact .nil
  | cons d ds ih =>
    have hd : IsExercise b t d := hds d (by simp)
    obtain ⟨hbefore, hafter, hapart⟩ := List.nodup_append.mp hnodup
    rw [List.nodup_cons] at hafter
    have halone := buildDirectory_alone h hb hd
      (fun e he => ⟨hds e (List.mem_append_left _ he),
        fun hde => hapart e he d List.mem_cons_self hde.symm⟩)
      hx (haloof d List.mem_cons_self) forced time
    have hstep := buildDirectory_alters_later h hb (confined_of_filled h hb hx) hd forced pattern
      time
    obtain ⟨v, r, hr, ha, heq⟩ := buildDirectories_cons ha
    rw [heq]
    rw [hr] at halone hstep
    have hy := alters_concat hx hstep
    have hall : done ++ d :: ds = (done ++ [d]) ++ ds := by simp
    have hrest := ih (hall ▸ hds) (hall ▸ hnodup) hy
      (fun e he => haloof e (List.mem_cons_of_mem _ he)) ha
    refine .cons ⟨halone.abort.symm, halone.result, fun l hl c τ => ?_⟩ hrest
    have hlater := buildDirectories_alters h hb (confined_of_filled h hb hy)
      (fun e he => hds e (List.mem_append_right _ (List.mem_cons_of_mem _ he)))
      forced pattern time
    rw [hlater.file_iff, halone.tree.file l (.inr hl)]
    refine not_filled_of_below h hb hd (fun e he => ⟨hds e ?_, ?_⟩) hl
    · exact List.mem_append_right _ (List.mem_cons_of_mem _ he)
    · rintro rfl
      exact hafter.1 he

/-! ### Whole builds -/

theorem exercises_alone (h : t.WellFormed) (hb : Plan.Separate b.roots)
    (he : b.exercises t pattern = .ok ds) (haloof : ∀ d ∈ ds, Aloof b t (b.scriptIn d))
    {es : List Path} (hperm : es.Perm ds)
    (ha : (buildDirectories b forced pattern time t es).abort = none) :
    List.Forall₂
      (AsAlone b t forced pattern time (buildDirectories b forced pattern time t es).tree) es
      (buildDirectories b forced pattern time t es).result := by
  have hes : ∀ d ∈ [] ++ es, IsExercise b t d := fun d hd =>
    isExercise_of_mem h hb he (hperm.subset hd)
  apply buildDirectories_alone h hb hes
  · exact hperm.nodup_iff.mpr (nodup_exercises h he)
  · exact .refl h _ _
  · exact fun d hd => haloof d (hperm.subset hd)
  · exact ha

theorem buildAll_alone (h : t.WellFormed) (hb : Plan.Separate b.roots)
    (he : b.exercises t pattern = .ok ds) (haloof : ∀ d ∈ ds, Aloof b t (b.scriptIn d))
    (ha : (buildAll b t forced pattern time).abort = none) :
    List.Forall₂ (AsAlone b t forced pattern time (buildAll b t forced pattern time).tree) ds
      (buildAll b t forced pattern time).result.directories := by
  rw [buildAll, he] at ha ⊢
  exact exercises_alone h hb he haloof (.refl ds) ha

theorem exists_of_forall₂ {α β : Type} {Q : α → β → Prop} {as : List α} {bs : List β}
    (h : List.Forall₂ Q as bs) {a : α} (ha : a ∈ as) : ∃ b ∈ bs, Q a b := by
  induction h with
  | nil => cases ha
  | cons hab _ ih =>
    rcases List.mem_cons.mp ha with rfl | ha
    · exact ⟨_, List.mem_cons_self, hab⟩
    · obtain ⟨b, hb, hq⟩ := ih ha
      exact ⟨b, List.mem_cons_of_mem _ hb, hq⟩

theorem practiceOf_inj (hp : b.roots.practiceOf p = .ok x) (hq : b.roots.practiceOf q = .ok x) :
    p = q := by
  have hshape : ∀ {p}, b.roots.practiceOf p = .ok x →
      ∃ rel, p = b.source rel ∧ x = b.target rel := by
    intro p hp
    rw [Roots.practiceOf, Path.relativeTo] at hp
    split at hp
    · next ha =>
      split at hp
      · next rel hrel =>
        refine ⟨rel, ?_, (Except.ok.inj hp).symm⟩
        rw [Path.below?_eq_some_iff] at hrel
        rw [Plan.source, Path.under, ← hrel, ← ha]
      · cases hp
    · cases hp
  obtain ⟨as, rfl, rfl⟩ := hshape hp
  obtain ⟨bs, rfl, hx⟩ := hshape hq
  rw [Plan.target, Plan.target, Path.under, Path.under, Path.mk.injEq,
    List.append_cancel_left_eq] at hx
  rw [hx.2]

/-- What makes exercises independent: builds change the practices tree only, but for the way to it,
the build of a directory changes files of its practice only, no two files share a practice, and an
exercise fares in every build of all, in whatever order, as it does when it is built alone. -/
structure Independent (b : Plan) (t : FileTree) (forced : Bool) (pattern : Option Text)
    (time : Int) : Prop where
  outside : ∀ l, ¬InPractices b t l →
    (buildAll b t forced pattern time).tree.get? l = t.get? l ∨
    (l <+: t.site b.roots.practices ∧ t.get? l = none ∧
      (buildAll b t forced pattern time).tree.get? l = some .directory)
  within : ∀ d q, b.roots.practiceOf d = .ok q →
    t.Confined (buildDirectory b t forced pattern time d).tree (Below b t d)
  distinct : ∀ d q, b.roots.practiceOf d = .ok q → ∀ files, b.filesOf t d pattern = .ok files →
    ∀ p ∈ files, ∃ x, b.roots.practiceOf p = .ok x ∧ ∀ p', b.roots.practiceOf p' = .ok x → p' = p
  alone : ∀ ds, b.exercises t pattern = .ok ds → (∀ d ∈ ds, Aloof b t (b.scriptIn d)) →
    ((buildAll b t forced pattern time).abort = none →
      List.Forall₂ (AsAlone b t forced pattern time (buildAll b t forced pattern time).tree) ds
        (buildAll b t forced pattern time).result.directories) ∧
    ∀ es, es.Perm ds → (buildDirectories b forced pattern time t es).abort = none →
      List.Forall₂
        (AsAlone b t forced pattern time (buildDirectories b forced pattern time t es).tree) es
        (buildDirectories b forced pattern time t es).result

/-- Exercises are independent of each other, as far as their scripts do not lie where builds write.
A script has no part in this beyond the scenes that it turns into scenes: it touches no file. -/
theorem buildAll_independent (h : t.WellFormed) (hb : Plan.Separate b.roots) (forced : Bool)
    (pattern : Option Text) (time : Int) : Independent b t forced pattern time := by
  constructor
  · intro l hl
    have hx := (buildAll_alters h hb forced pattern time).get? l
    rcases hx with hg | ⟨hd, hg⟩ | ⟨hs, -⟩
    · exact .inl hg
    · exact .inr ⟨hd.resolve_right hl, hg⟩
    · exact absurd hs hl
  · intro d q hq
    exact buildDirectory_below h hq forced pattern time
  · intro d q hq files hf p hp
    obtain ⟨rel, rfl, -⟩ := under_of_mem_filesOf h hf hp
    have hx := practiceOf_under hq rel
    exact ⟨_, hx, fun p' hp' => practiceOf_inj hp' hx⟩
  · intro ds he haloof
    constructor
    · exact buildAll_alone h hb he haloof
    · exact fun es hperm ha => exercises_alone h hb he haloof hperm ha

def blockedPlan : Plan where
  roots := Roots.ofNames (Path.ofText "/w") "s" "p" "res://"

def blockedTree : FileTree where
  entries := [
    (["w"], .directory),
    (["w", "s"], .directory),
    (["w", "s", "r.gd"], .file [] 5),
    (["w", "s", "l"], .directory),
    (["w", "s", "l", "a.gd"], .file [] 5),
    (["w", "p"], .directory),
    (["w", "p", "l"], .file [] 5)]

def blockedExercises : List Path := [blockedPlan.source ["l"], blockedPlan.source []]

def blockedRun : Run (List DirectoryResult) :=
  buildDirectories blockedPlan false none 6 blockedTree blockedExercises

theorem buildAll_independent_blocked : blockedTree.WellFormed ∧
    Plan.Separate blockedPlan.roots ∧ blockedRun.abort = none ∧
    blockedRun.result.map DirectoryResult.ok = [false, true] ∧
    List.Forall₂ (AsAlone blockedPlan blockedTree false none 6 blockedRun.tree) blockedExercises
      blockedRun.result := by
  have hwf : blockedTree.WellFormed := by decide +kernel
  have hb : blockedPlan.Layout :=
    ⟨separate_ofNames (by decide) (by decide) (by decide) (by decide) (by decide) (by decide)
      (by decide), by decide, by decide⟩
  have hrun : blockedRun.abort = none ∧
      blockedRun.result.map DirectoryResult.ok = [false, true] := by decide +kernel
  have hexercises : blockedPlan.exercises blockedTree none = .ok blockedExercises.reverse := by
    decide +kernel
  have haloof : ∀ d ∈ blockedExercises.reverse,
      Aloof blockedPlan blockedTree (blockedPlan.scriptIn d) := fun d hd =>
    hb.aloof hwf ((isExercise_of_mem hwf hb.toSeparate hexercises hd).inSolutions hwf)
  have halone := (buildAll_independent hwf hb.toSeparate false none 6).alone _ hexercises haloof
  exact ⟨hwf, hb.toSeparate, hrun.1, hrun.2,
    halone.2 _ (List.reverse_perm _).symm hrun.1⟩

def leakPlan : Plan where
  roots := Roots.ofNames (Path.ofText "/w") "s" "p" "res://"
  scriptName := some "../../p/c.py"

def leakTree : FileTree where
  entries := [
    (["w"], .directory),
    (["w", "s"], .directory),
    (["w", "s", "c.py"], .file [] 5),
    (["w", "s", "l"], .directory),
    (["w", "s", "l", "a.tscn"], .file [] 5)]

def leakAlone : Run DirectoryResult :=
  buildDirectory leakPlan leakTree false none 6 (leakPlan.source ["l"])

theorem script_among_practices : leakTree.WellFormed ∧ Plan.Separate leakPlan.roots ∧
    leakPlan.exercises leakTree none = .ok [leakPlan.source [], leakPlan.source ["l"]] ∧
    (buildAll leakPlan leakTree false none 6).abort = none ∧
    (buildAll leakPlan leakTree false none 6).result.directories.map DirectoryResult.ok =
      [true, false] ∧
    leakAlone.abort = none ∧ leakAlone.result.ok = true := by
  have hb : Plan.Separate leakPlan.roots :=
    separate_ofNames (by decide) (by decide) (by decide) (by decide) (by decide) (by decide)
      (by decide)
  refine ⟨?_, hb, ?_, ?_, ?_, ?_, ?_⟩ <;> decide +kernel

end Coursework.Build
