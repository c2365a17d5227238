import Coursework.Proofs.FileTree.Alteration
import Coursework.Proofs.Build.Pattern

namespace Coursework.Build

open FileTree (landing_under)
open Relation (ReflTransGen)

variable {b : Plan} {t u v : FileTree} {script : Option SceneScript} {target d p : Path}
  {forced : Bool} {pattern : Option Text} {time : Int} {R R' : List Text → Prop}
  {rel : List Text} {ds : List Path} {l : Location} {D S : Location → Prop}

theorem alters_of_writes (h : t.WellFormed) (hp : target.Descends) (hs : S (t.landing target))
    (hw : ReflTransGen (Writes target time) t u) : t.Alters u D S := by
  induction hw with
  | refl => exact .refl h D S
  | tail _ hw ih =>
    obtain ⟨c, hw⟩ := hw
    apply ih.trans
    apply ih.wellFormed.writeBytes_alters hp hw
    rwa [FileTree.landing_congr ih.place]

theorem regenerate_alters (h : t.WellFormed) (hp : target.Descends)
    (hd : target.parent.hasNull = false → ∀ l, l <+: t.landing target.parent → D l)
    (hs : S (t.landing target)) (script : Option SceneScript) (source : Path) (time : Int) :
    t.Alters (regenerate b t script source target time).tree D S := by
  have hx : t.Alters (t.ensureDirectories target.parent).1 D S := by
    by_cases hn : target.parent.hasNull = true
    · rw [FileTree.ensureDirectories_of_hasNull hn]
      exact .refl h D S
    · exact (h.ensureDirectories hp.parent).1.alters (hd (Bool.eq_false_iff.mpr hn))
  have hw := regenerate_writes b t script source target time
  apply hx.trans
  apply alters_of_writes hx.wellFormed hp _ hw
  rwa [FileTree.landing_congr hx.place]

theorem buildFile_alters_practice (h : t.WellFormed)
    (hd : ∀ q, b.roots.practiceOf p = .ok q → q.Descends) (script : Option SceneScript)
    (forced : Bool) (time : Int) : t.Alters (buildFile b t script forced p time).tree
      (fun l => ∃ q, b.roots.practiceOf p = .ok q ∧ q.parent.hasNull = false ∧
        l <+: t.landing q.parent)
      (fun l => ∃ q, b.roots.practiceOf p = .ok q ∧ l = t.landing q) := by
  rw [buildFile]
  cases hq : b.roots.practiceOf p with
  | error e => exact .refl h _ _
  | ok q =>
    simp only
    split
    · exact .refl h _ _
    · exact regenerate_alters h (hd q hq) (fun hn l hl => ⟨q, rfl, hn, hl⟩) ⟨q, rfl, rfl⟩ script p
        time

def Passed (b : Plan) (t : FileTree) (R : List Text → Prop) (l : Location) : Prop :=
  b.roots.practices.hasNull = false ∧ ∃ rel, R rel ∧ l <+: t.landing (b.target rel).parent

def Filled (b : Plan) (t : FileTree) (R : List Text → Prop) (l : Location) : Prop :=
  ∃ rel, R rel ∧ l = t.landing (b.target rel)

theorem passed_congr (h : u.place = t.place) : Passed b u R = Passed b t R := by
  funext l
  simp only [Passed, FileTree.landing_congr h]

theorem filled_congr (h : u.place = t.place) : Filled b u R = Filled b t R := by
  funext l
  simp only [Filled, FileTree.landing_congr h]

theorem Passed.mono (hR : ∀ rel, R rel → R' rel) (hl : Passed b t R l) : Passed b t R' l := by
  obtain ⟨hn, rel, hr, hp⟩ := hl
  exact ⟨hn, rel, hR rel hr, hp⟩

theorem Filled.mono (hR : ∀ rel, R rel → R' rel) (hl : Filled b t R l) : Filled b t R' l := by
  obtain ⟨rel, hr, hp⟩ := hl
  exact ⟨rel, hR rel hr, hp⟩

theorem parent_target (b : Plan) (hne : rel ≠ []) :
    (b.target rel).parent = b.target rel.dropLast := by
  obtain ⟨pre, name, rfl⟩ := (List.eq_nil_or_concat rel).resolve_left hne
  rw [List.concat_eq_append, List.dropLast_concat]
  exact Path.parent_under_concat _ _ _

theorem buildFile_alters (h : t.WellFormed) (hb : Plan.Separate b.roots) (hr : R rel)
    (hn : ['.', '.'] ∉ rel) (hne : rel ≠ []) (script : Option SceneScript) (forced : Bool)
    (time : Int) : t.Alters (buildFile b t script forced (b.source rel) time).tree (Passed b t R)
      (Filled b t R) := by
  have htarget : ∀ q, b.roots.practiceOf (b.source rel) = .ok q → q = b.target rel := fun q hq =>
    Except.ok.inj (hq.symm.trans (practiceOf_source b rel))
  have hx := buildFile_alters_practice h (fun q hq => htarget q hq ▸ hb.target hn) script forced time
  refine hx.mono ?_ ?_
  · rintro l ⟨q, hq, hnull, hl⟩
    obtain rfl := htarget q hq
    rw [parent_target b hne] at hnull
    have hroot := FileTree.hasNull_under hnull List.nil_prefix
    rw [Path.under_nil] at hroot
    exact ⟨hroot, rel, hr, hl⟩
  · rintro l ⟨q, hq, rfl⟩
    exact ⟨rel, hr, congrArg t.landing (htarget q hq)⟩

def Belongs (b : Plan) (t : FileTree) (pattern : Option Text) (d : Path) (rel : List Text) : Prop :=
  ∃ files, b.filesOf t d pattern = .ok files ∧ b.source rel ∈ files

structure Solution (b : Plan) (t : FileTree) (d : Path) (rel : List Text) : Prop where
  home : b.home rel = d
  ne_nil : rel ≠ []
  descends : ['.', '.'] ∉ rel
  file : ∃ c τ, t.get? (t.landing (b.source rel)) = some (.file c τ)

theorem solution_of_mem (h : t.WellFormed) (hb : Plan.Separate b.roots) (hd : IsExercise b t d)
    {files : List Path} (hf : b.filesOf t d pattern = .ok files) (hp : p ∈ files) :
    ∃ rel, p = b.source rel ∧ Solution b t d rel := by
  obtain ⟨rel, c, τ, rfl, hhome, hne, hn, hg⟩ := source_of_mem_filesOf h hb hd hf hp
  exact ⟨rel, rfl, hhome, hne, hn, c, τ, hg⟩

theorem Belongs.solution (h : t.WellFormed) (hb : Plan.Separate b.roots) (hd : IsExercise b t d)
    (hr : Belongs b t pattern d rel) : Solution b t d rel := by
  obtain ⟨files, hf, hp⟩ := hr
  obtain ⟨rel', hrel, hs⟩ := solution_of_mem h hb hd hf hp
  rwa [source_inj.mp hrel]

theorem IsExercise.inSolutions (h : t.WellFormed) (hd : IsExercise b t d) : InSolutions b d := by
  rcases hd with rfl | ⟨name, rfl, hg⟩
  · exact ⟨[], List.not_mem_nil, rfl⟩
  · rw [Plan.source, landing_under] at hg
    exact ⟨[name], h.not_mem_of_get? hg, rfl⟩

theorem buildDirectory_alters (h : t.WellFormed) (hb : Plan.Separate b.roots)
    (hd : IsExercise b t d) (forced : Bool) (pattern : Option Text) (time : Int) :
    t.Alters (buildDirectory b t forced pattern time d).tree (Passed b t (Belongs b t pattern d))
      (Filled b t (Belongs b t pattern d)) := by
  refine buildDirectory_preserves (P := fun u => t.Alters u (Passed b t (Belongs b t pattern d))
    (Filled b t (Belongs b t pattern d))) (fun files hf p hp script u hu => ?_) (.refl h _ _)
  obtain ⟨rel, rfl, hs⟩ := solution_of_mem h hb hd hf hp
  apply hu.trans
  rw [← passed_congr hu.place, ← filled_congr hu.place]
  exact buildFile_alters hu.wellFormed hb ⟨files, hf, hp⟩ hs.descends hs.ne_nil script forced time

theorem inPractices_landing (h : t.WellFormed) (hb : Plan.Separate b.roots) :
    InPractices b t l ↔ t.landing b.roots.practices <+: l := by
  rw [InPractices, h.site_eq_landing hb.practices]

theorem inPractices_of_filled (h : t.WellFormed) (hb : Plan.Separate b.roots)
    (hl : Filled b t R l) : InPractices b t l := by
  obtain ⟨rel, -, rfl⟩ := hl
  rw [inPractices_landing h hb, Plan.target, landing_under]
  exact List.prefix_append _ _

theorem confined_of_filled (h : t.WellFormed) (hb : Plan.Separate b.roots)
    (hx : t.Alters u D (Filled b t R)) : t.Confined u (InPractices b t) :=
  hx.confined.mono fun _ => inPractices_of_filled h hb

theorem IsExercise.later (hd : IsExercise b t d) (hx : t.Confined u S) : IsExercise b u d := by
  refine hd.imp_right ?_
  rintro ⟨name, hname, hg⟩
  refine ⟨name, hname, ?_⟩
  rw [FileTree.landing_congr hx.place]
  exact hx.directory _ hg

theorem buildDirectory_alters_later (h : t.WellFormed) (hb : Plan.Separate b.roots)
    (hx : t.Confined u (InPractices b t)) (hd : IsExercise b t d) (forced : Bool)
    (pattern : Option Text) (time : Int) :
    u.Alters (buildDirectory b u forced pattern time d).tree (Passed b t (Belongs b t pattern d))
      (Filled b t (Belongs b t pattern d)) := by
  have hbelongs : Belongs b u pattern d = Belongs b t pattern d := by
    funext rel
    rw [Belongs, Belongs, filesOf_congr h hb hx (hd.inSolutions h)]
  have hu := buildDirectory_alters hx.wellFormed hb (hd.later hx) forced pattern time
  rwa [hbelongs, passed_congr hx.place, filled_congr hx.place] at hu

def BelongsAny (b : Plan) (t : FileTree) (pattern : Option Text) (ds : List Path)
    (rel : List Text) : Prop :=
  ∃ d ∈ ds, Belongs b t pattern d rel

theorem buildDirectories_alters (h : t.WellFormed) (hb : Plan.Separate b.roots)
    (hx : t.Confined u (InPractices b t)) (hds : ∀ d ∈ ds, IsExercise b t d) (forced : Bool)
    (pattern : Option Text) (time : Int) :
    u.Alters (buildDirectories b forced pattern time u ds).tree
      (Passed b t (BelongsAny b t pattern ds)) (Filled b t (BelongsAny b t pattern ds)) := by
  refine buildDirectories_preserves (P := fun v => u.Alters v
    (Passed b t (BelongsAny b t pattern ds)) (Filled b t (BelongsAny b t pattern ds)))
    (fun d hd v hv => ?_) (.refl hx.wellFormed _ _)
  have hall : ∀ rel, Belongs b t pattern d rel → BelongsAny b t pattern ds rel :=
    fun rel hr => ⟨d, hd, hr⟩
  have hy : t.Confined v (InPractices b t) :=
    hx.trans (hv.confined.mono fun l => inPractices_of_filled h hb)
  have hv' := buildDirectory_alters_later h hb hy (hds d hd) forced pattern time
  exact hv.trans (hv'.mono (fun l => Passed.mono hall) (fun l => Filled.mono hall))

theorem prefix_or_of_passed (h : t.WellFormed) (hb : Plan.Separate b.roots)
    (hl : Passed b t R l) : l <+: t.site b.roots.practices ∨ InPractices b t l := by
  obtain ⟨-, rel, -, hl⟩ := hl
  have hl := hl.trans (FileTree.isPrefix_landing_parent t _)
  rw [inPractices_landing h hb, h.site_eq_landing hb.practices]
  rw [Plan.target, landing_under] at hl
  exact List.prefix_or_prefix_of_prefix hl (List.prefix_append _ _)

theorem buildAll_alters (h : t.WellFormed) (hb : Plan.Separate b.roots) (forced : Bool)
    (pattern : Option Text) (time : Int) : t.Alters (buildAll b t forced pattern time).tree
      (fun l => l <+: t.site b.roots.practices ∨ InPractices b t l) (InPractices b t) := by
  refine buildAll_preserves (P := fun u => t.Alters u
    (fun l => l <+: t.site b.roots.practices ∨ InPractices b t l) (InPractices b t))
    (fun ds he d hd u hu => ?_) (.refl h _ _)
  have hstep := buildDirectory_alters_later h hb hu.confined (isExercise_of_mem h hb he hd) forced
    pattern time
  apply hu.trans
  exact hstep.mono (fun l => prefix_or_of_passed h hb) (fun l => inPractices_of_filled h hb)

end Coursework.Build
