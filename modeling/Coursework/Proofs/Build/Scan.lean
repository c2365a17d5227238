import Coursework.Proofs.FileTree.Writing
import Coursework.Proofs.Roots
import Coursework.Build.Directory

namespace Coursework

namespace Build

variable {b : Plan} {t u : FileTree} {d p : Path} {pattern : Option Text} {rel : List Text}

def Taken (b : Plan) (t : FileTree) (d : Path) (pattern : Option Text) (recursive : Bool)
    (rel : List Text) : Prop :=
  (∃ c τ, t.get? (t.landing d ++ rel) = some (.file c τ)) ∧ (recursive = true ∨ rel.length = 1) ∧
    rel ≠ [] ∧ Selection.selects b.excludes.patterns pattern ⟨.here, rel⟩ = true

theorem mem_scan_located {x : List Text} {recursive : Bool} {l : Location} (h : t.WellFormed)
    (hl : t.locate d = .ok l) : p ∈ scan t x d pattern recursive ↔
      ∃ rel, p = d.under rel ∧ (∃ c τ, t.get? (l ++ rel) = some (.file c τ)) ∧
        (recursive = true ∨ rel.length = 1) ∧ rel ≠ [] ∧
        Selection.selects x pattern ⟨.here, rel⟩ = true := by
  rw [scan]
  simp only [hl]
  by_cases hg : t.get? l = some .directory
  · simp only [hg, Option.any_some, Entry.isDirectory, if_true, List.mem_mergeSort,
      List.mem_filterMap]
    constructor
    · rintro ⟨⟨rel, c, τ⟩, hm, hp⟩
      split at hp
      · next hc =>
        obtain rfl := Option.some.inj hp
        exact ⟨rel, rfl, ⟨c, τ, h.mem_filesBelow.mp hm⟩, hc.2.1, hc.1, hc.2.2⟩
      · cases hp
    · rintro ⟨rel, rfl, ⟨c, τ, hf⟩, hr, hne, hs⟩
      refine ⟨(rel, c, τ), h.mem_filesBelow.mpr hf, ?_⟩
      rw [if_pos ⟨hne, hr, hs⟩]
      rfl
  · have hany : (t.get? l).any Entry.isDirectory = false := by
      cases hg' : t.get? l with
      | none => rfl
      | some e =>
        cases e with
        | directory => exact absurd hg' hg
        | file c τ => rfl
    simp only [hany, Bool.false_eq_true, if_false, List.not_mem_nil, false_iff]
    rintro ⟨rel, -, ⟨c, τ, hf⟩, -, hne, -⟩
    exact hg (h.above hne hf)

theorem mem_scan_iff (h : t.WellFormed) (hd : d.Descends) {recursive : Bool} :
    p ∈ scan t b.excludes.patterns d pattern recursive ↔
      ∃ rel, p = d.under rel ∧ Taken b t d pattern recursive rel := by
  cases hl : t.locate d with
  | error o =>
    rw [scan, hl]
    simp only [List.not_mem_nil, false_iff]
    rintro ⟨rel, -, ⟨c, τ, hg⟩, -, hne, -⟩
    rw [h.locate_of_get? hd (h.above hne hg)] at hl
    cases hl
  | ok l =>
    rw [mem_scan_located h hl, ((h.locate_eq_ok_iff hd).mp hl).1]
    rfl

/-! ### The layout of a project -/

namespace Plan

def source (b : Plan) (rel : List Text) : Path := b.roots.solutions.under rel

def target (b : Plan) (rel : List Text) : Path := b.roots.practices.under rel

def home (b : Plan) : List Text → Path
  | name :: _ :: _ => b.source [name]
  | _ => b.source []

def scriptIn (b : Plan) (d : Path) : Path := d ++ Path.ofText (b.scriptName.getD [])

def scriptPath (b : Plan) (rel : List Text) : Path := b.scriptIn (b.home rel)

structure Separate (r : Roots) : Prop where
  solutions : r.solutions.Descends
  practices : r.practices.Descends
  anchor : r.practices.anchor = r.solutions.anchor
  solutionsApart : ¬r.solutions.parts <+: r.practices.parts
  practicesApart : ¬r.practices.parts <+: r.solutions.parts

/-- The roots are separate, and scripts lie below the directories that they are for, or at one place
that is not below the practices root. -/
structure Layout (b : Plan) : Prop extends Separate b.roots where
  script : (Path.ofText (b.scriptName.getD [])).Descends
  scriptPlace : (Path.ofText (b.scriptName.getD [])).anchor = .here ∨
    b.roots.practices.anchor ≠ .here ∧
      ¬b.roots.practices.parts <+: (Path.ofText (b.scriptName.getD [])).parts

end Plan

theorem separate_ofNames {project : Path} {solutions practices scheme : Text}
    (hproject : project.Descends)
    (hs : (Path.ofText solutions).anchor = .here) (hp : (Path.ofText practices).anchor = .here)
    (hsd : (Path.ofText solutions).Descends) (hpd : (Path.ofText practices).Descends)
    (hsp : ¬(Path.ofText solutions).parts <+: (Path.ofText practices).parts)
    (hps : ¬(Path.ofText practices).parts <+: (Path.ofText solutions).parts) :
    Plan.Separate (Roots.ofNames project solutions practices scheme) := by
  have hsolutions : (Roots.ofNames project solutions practices scheme).solutions =
      project.under (Path.ofText solutions).parts := by
    change Path.append _ _ = _
    rw [Path.append, hs]
    rfl
  have hpractices : (Roots.ofNames project solutions practices scheme).practices =
      project.under (Path.ofText practices).parts := by
    change Path.append _ _ = _
    rw [Path.append, hp]
    rfl
  constructor
  · exact hsolutions ▸ hproject.under hsd
  · exact hpractices ▸ hproject.under hpd
  · rw [hsolutions, hpractices, Path.under, Path.under]
  · rw [hsolutions, hpractices, Path.under, Path.under, List.prefix_append_right_inj]
    exact hsp
  · rw [hsolutions, hpractices, Path.under, Path.under, List.prefix_append_right_inj]
    exact hps

theorem source_inj {as bs : List Text} : b.source as = b.source bs ↔ as = bs := by
  simp [Plan.source, Path.under]

theorem practiceOf_source (b : Plan) (rel : List Text) :
    b.roots.practiceOf (b.source rel) = .ok (b.target rel) :=
  b.roots.practiceOf_under rel

theorem Plan.Separate.source (hb : Plan.Separate b.roots) (hr : ['.', '.'] ∉ rel) :
    (b.source rel).Descends :=
  hb.solutions.under hr

theorem Plan.Separate.target (hb : Plan.Separate b.roots) (hr : ['.', '.'] ∉ rel) :
    (b.target rel).Descends :=
  hb.practices.under hr

theorem Plan.home_eq (b : Plan) (rel : List Text) : ∃ n, b.home rel = b.source (rel.take n) := by
  unfold Plan.home
  split
  · next name x xs => exact ⟨1, rfl⟩
  · exact ⟨0, rfl⟩

theorem Plan.Separate.apart (hb : Plan.Separate b.roots) (t : FileTree) {as bs : List Text}
    (h : t.landing (b.source as) <+: t.landing (b.target bs)) : False := by
  rw [Plan.source, Plan.target, FileTree.landing, FileTree.landing, Path.under, Path.under,
    hb.anchor, List.prefix_append_right_inj] at h
  have h1 : b.roots.solutions.parts <+: b.roots.practices.parts ++ bs :=
    (List.prefix_append _ _).trans h
  rcases List.prefix_or_prefix_of_prefix h1 (List.prefix_append _ _) with hp | hp
  · exact hb.solutionsApart hp
  · exact hb.practicesApart hp

theorem Plan.Separate.apart' (hb : Plan.Separate b.roots) (t : FileTree) {as bs : List Text}
    (h : t.landing (b.target as) <+: t.landing (b.source bs)) : False := by
  rw [Plan.source, Plan.target, FileTree.landing, FileTree.landing, Path.under, Path.under,
    hb.anchor, List.prefix_append_right_inj] at h
  have h1 : b.roots.practices.parts <+: b.roots.solutions.parts ++ bs :=
    (List.prefix_append _ _).trans h
  rcases List.prefix_or_prefix_of_prefix h1 (List.prefix_append _ _) with hp | hp
  · exact hb.practicesApart hp
  · exact hb.solutionsApart hp

theorem Plan.Separate.not_same (hb : Plan.Separate b.roots) (h : t.WellFormed) {as bs : List Text}
    (ha : ['.', '.'] ∉ as) (hbs : ['.', '.'] ∉ bs) :
    t.same (b.source as) (b.target bs) = false := by
  rw [FileTree.same]
  split
  · next l m hl hm =>
    obtain ⟨rfl, -⟩ := (h.locate_eq_ok_iff (hb.source ha)).mp hl
    obtain ⟨rfl, -⟩ := (h.locate_eq_ok_iff (hb.target hbs)).mp hm
    have hne : t.landing (b.source as) ≠ t.landing (b.target bs) := fun he => by
      have hp : t.landing (b.source as) <+: t.landing (b.target bs) := he ▸ List.prefix_refl _
      exact hb.apart t hp
    simp [hne]
  · rfl

theorem Plan.Layout.scriptIn_source (hb : b.Layout) (xs : List Text) :
    b.scriptIn (b.source xs) = b.source (xs ++ (Path.ofText (b.scriptName.getD [])).parts) ∨
      b.scriptIn (b.source xs) = Path.ofText (b.scriptName.getD []) ∧
        b.roots.practices.anchor ≠ .here ∧ (b.scriptIn (b.source xs)).anchor ≠ .here ∧
        ¬b.roots.practices.parts <+: (b.scriptIn (b.source xs)).parts := by
  have happend : b.scriptIn (b.source xs) =
    Path.append (b.source xs) (Path.ofText (b.scriptName.getD [])) := rfl
  rw [Path.append] at happend
  by_cases ha : (Path.ofText (b.scriptName.getD [])).anchor = .here
  · left
    rw [happend, ha, Plan.source, Plan.source, ← Path.under_under]
    rfl
  · right
    have heq : b.scriptIn (b.source xs) = Path.ofText (b.scriptName.getD []) := by
      rw [happend]
      split
      · next hh => exact absurd hh ha
      · rfl
    obtain ⟨hp, hs⟩ := hb.scriptPlace.resolve_left ha
    rw [heq]
    exact ⟨rfl, hp, ha, hs⟩

theorem Plan.Layout.scriptIn (hb : b.Layout) {xs : List Text} (hx : ['.', '.'] ∉ xs) :
    (b.scriptIn (b.source xs)).Descends := by
  rcases hb.scriptIn_source xs with h | ⟨h, -⟩
  · rw [h]
    apply hb.source
    intro hm
    rcases List.mem_append.mp hm with hm | hm
    · exact hx hm
    · exact hb.script hm
  · rw [h]
    exact hb.script

theorem Plan.Layout.scriptPath (hb : b.Layout) (hr : ['.', '.'] ∉ rel) :
    (b.scriptPath rel).Descends := by
  obtain ⟨n, hn⟩ := b.home_eq rel
  rw [Plan.scriptPath, hn]
  exact hb.scriptIn fun hm => hr (List.mem_of_mem_take hm)

theorem Plan.Layout.script_apart (hb : b.Layout) (t : FileTree) {xs bs : List Text}
    (h : t.landing (b.target bs) <+: t.landing (b.scriptIn (b.source xs))) : False := by
  rcases hb.scriptIn_source xs with hs | ⟨-, hp, ha, hs⟩
  · rw [hs] at h
    exact hb.apart' t h
  · rw [Plan.target, FileTree.landing, FileTree.landing, FileTree.base, FileTree.base, if_neg ha,
      if_neg (show (b.roots.practices.under bs).anchor ≠ .here from hp)] at h
    exact hs ((List.prefix_append _ _).trans h)

/-! ### Exercises and their files -/

theorem scanWith_ok {x : Selection.Excludes} {recursive : Bool} {files : List Path}
    (h : scanWith t x d pattern recursive = .ok files) :
    files = scan t x.patterns d pattern recursive ∧
      (x.complete || (scan t x.patterns d none recursive).isEmpty) = true := by
  rw [scanWith] at h
  split at h
  · next hc => exact ⟨(Except.ok.inj h).symm, hc⟩
  · cases h

def IsExercise (b : Plan) (t : FileTree) (d : Path) : Prop :=
  d = b.source [] ∨ ∃ name, d = b.source [name] ∧
    t.get? (t.landing (b.source [name])) = some .directory

theorem IsExercise.descends (h : t.WellFormed) (hb : Plan.Separate b.roots)
    (hd : IsExercise b t d) : d.Descends := by
  rcases hd with rfl | ⟨name, rfl, hg⟩
  · exact hb.source (by simp)
  · rw [Plan.source, FileTree.landing_under] at hg
    exact hb.source (h.not_mem_of_get? hg)

theorem home_of_taken {recursive : Bool} (hd : IsExercise b t d)
    (hr : recursive = (d != b.roots.solutions)) {r : List Text}
    (ht : Taken b t d pattern recursive r) :
    ∃ rel, d.under r = b.source rel ∧ b.home rel = d ∧ rel ≠ [] ∧
      t.landing d ++ r = t.landing (b.source rel) := by
  obtain ⟨-, hlen, hne, -⟩ := ht
  rcases hd with rfl | ⟨name, rfl, -⟩
  · have hlen : r.length = 1 := by
      apply hlen.resolve_left
      rw [hr]
      simp [Plan.source]
    obtain ⟨x, rfl⟩ := List.length_eq_one_iff.mp hlen
    exact ⟨[x], by simp [Plan.source], rfl, by simp, by simp [Plan.source, FileTree.landing_under]⟩
  · obtain ⟨x, xs, rfl⟩ := List.exists_cons_of_ne_nil hne
    refine ⟨name :: x :: xs, by simp [Plan.source, Path.under_under], rfl, by simp, ?_⟩
    simp [Plan.source, FileTree.landing_under]

theorem source_of_mem_filesOf (h : t.WellFormed) (hb : Plan.Separate b.roots)
    (hd : IsExercise b t d) {files : List Path} (hf : b.filesOf t d pattern = .ok files)
    (hp : p ∈ files) :
    ∃ rel c τ, p = b.source rel ∧ b.home rel = d ∧ rel ≠ [] ∧ ['.', '.'] ∉ rel ∧
      t.get? (t.landing (b.source rel)) = some (.file c τ) := by
  obtain ⟨rfl, -⟩ := scanWith_ok hf
  obtain ⟨r, rfl, ht⟩ := (mem_scan_iff h (hd.descends h hb)).mp hp
  obtain ⟨rel, hrel, hhome, hne, hland⟩ := home_of_taken hd rfl ht
  obtain ⟨c, τ, hg⟩ := ht.1
  rw [hland] at hg
  refine ⟨rel, c, τ, hrel, hhome, hne, ?_, hg⟩
  rw [Plan.source, FileTree.landing_under] at hg
  exact h.not_mem_of_get? hg

theorem mem_subdirectories_located {l : Location} (h : t.WellFormed) (hl : t.locate d = .ok l)
    {e : Path} : e ∈ subdirectories t d ↔ ∃ name, e = d.under [name] ∧
      t.get? (l ++ [name]) = some .directory ∧ isExerciseName name = true := by
  rw [subdirectories, hl]
  simp only [List.mem_mergeSort, List.mem_filterMap]
  constructor
  · rintro ⟨⟨name, f⟩, hm, he⟩
    split at he
    · next hc =>
      rw [Bool.and_eq_true] at hc
      obtain rfl := Option.some.inj he
      have hg := h.mem_childrenOf.mp hm
      cases f with
      | directory => exact ⟨name, rfl, hg, hc.2⟩
      | file c τ => cases hc.1
    · cases he
  · rintro ⟨name, rfl, hg, hn⟩
    refine ⟨(name, .directory), h.mem_childrenOf.mpr hg, ?_⟩
    simp [Entry.isDirectory, hn, Path.under, Path.child]

theorem mem_subdirectories (h : t.WellFormed) (hd : d.Descends) {e : Path} :
    e ∈ subdirectories t d ↔ ∃ name, e = d.under [name] ∧
      t.get? (t.landing d ++ [name]) = some .directory ∧ isExerciseName name = true := by
  cases hl : t.locate d with
  | error o =>
    simp only [subdirectories, hl, List.not_mem_nil, false_iff]
    rintro ⟨name, -, hg, -⟩
    rw [h.locate_of_get? hd (h.above (by simp) hg)] at hl
    cases hl
  | ok l =>
    rw [mem_subdirectories_located h hl, ((h.locate_eq_ok_iff hd).mp hl).1]

theorem child_of_mem_subdirectories {e : Path} (he : e ∈ subdirectories t d) :
    ∃ l name f, (name, f) ∈ t.childrenOf l ∧ e = d.under [name] := by
  rw [subdirectories] at he
  split at he
  · cases he
  · rw [List.mem_mergeSort, List.mem_filterMap] at he
    obtain ⟨⟨name, f⟩, hm, he⟩ := he
    simp only [Option.ite_none_right_eq_some, Option.some.injEq] at he
    exact ⟨_, name, f, hm, he.2.symm⟩

theorem ne_of_mem_subdirectories {e : Path} (he : e ∈ subdirectories t d) : e ≠ d := by
  obtain ⟨l, name, f, -, rfl⟩ := child_of_mem_subdirectories he
  intro hd
  simpa [Path.under] using congrArg Path.parts hd

theorem exercises_eq {ds : List Path} (he : b.exercises t none = .ok ds) : ds =
    if t.hasDirectory b.roots.solutions then
      (if (scan t b.excludes.patterns b.roots.solutions none false).isEmpty then []
        else [b.roots.solutions]) ++ subdirectories t b.roots.solutions
    else [] := by
  rw [Plan.exercises] at he
  split at he
  · next hdir =>
    rw [if_pos hdir]
    cases hs : scanWith t b.excludes b.roots.solutions none false with
    | error e => simp [hs, bind, Except.bind] at he
    | ok files =>
      simp only [hs, bind, Except.bind, pure, Except.pure, Except.ok.injEq] at he
      obtain ⟨rfl, -⟩ := scanWith_ok hs
      exact he.symm
  · next hdir => rw [if_neg hdir, ← Except.ok.inj he]

theorem withFiles_sublist {x : Text} {ds es : List Path} (hw : b.withFiles t x ds = .ok es) :
    es.Sublist ds := by
  induction ds generalizing es with
  | nil =>
    rw [← Except.ok.inj hw]
  | cons c ds ih =>
    rw [Plan.withFiles] at hw
    cases hf : b.filesOf t c (some x) with
    | error e => simp [hf, bind, Except.bind] at hw
    | ok files =>
      cases hr : b.withFiles t x ds with
      | error e => simp [hf, hr, bind, Except.bind] at hw
      | ok rest =>
        simp only [hf, hr, bind, Except.bind, pure, Except.pure, Except.ok.injEq] at hw
        rw [← hw]
        split
        · exact (ih hr).cons c
        · exact (ih hr).cons_cons c

theorem exercises_none (h : t.WellFormed) (hsol : b.roots.solutions.Descends) {ds : List Path}
    (he : b.exercises t none = .ok ds) (d : Path) : d ∈ ds ↔
      (d = b.source [] ∧ ∃ rel, Taken b t (b.source []) none false rel) ∨
      ∃ name, d = b.source [name] ∧ t.get? (t.landing (b.source [name])) = some .directory ∧
        isExerciseName name = true := by
  have hroot : b.source [] = b.roots.solutions := by simp [Plan.source]
  have hland : ∀ rel, t.landing (b.source rel) = t.landing b.roots.solutions ++ rel := fun rel => by
    rw [Plan.source, FileTree.landing_under]
  rw [exercises_eq he]
  by_cases hdir : t.hasDirectory b.roots.solutions = true
  · rw [if_pos hdir, List.mem_append, mem_subdirectories h hsol]
    refine or_congr ?_ ?_
    · cases hf : scan t b.excludes.patterns b.roots.solutions none false with
      | nil =>
        simp only [List.isEmpty_nil, if_true, List.not_mem_nil, false_iff]
        rintro ⟨-, rel, hr⟩
        have hm := (mem_scan_iff h hsol).mpr ⟨rel, rfl, hroot ▸ hr⟩
        rw [hf] at hm
        cases hm
      | cons p ps =>
        have hm : p ∈ scan t b.excludes.patterns b.roots.solutions none false := by simp [hf]
        obtain ⟨rel, -, hr⟩ := (mem_scan_iff h hsol).mp hm
        rw [← hroot] at hr
        simp only [List.isEmpty_cons, Bool.false_eq_true, if_false, List.mem_singleton, hroot]
        exact ⟨fun hd => ⟨hd, rel, hroot ▸ hr⟩, fun hd => hd.1⟩
    · simp only [hland]
      rfl
  · rw [if_neg hdir]
    have hno : t.get? (t.landing b.roots.solutions) ≠ some .directory := fun hg =>
      hdir ((FileTree.hasDirectory_iff h hsol).mpr hg)
    simp only [List.not_mem_nil, false_iff, not_or]
    refine ⟨?_, ?_⟩
    · rintro ⟨-, rel, ⟨c, τ, hg⟩, -, hne, -⟩
      rw [hroot] at hg
      exact hno (h.above hne hg)
    · rintro ⟨name, -, hg, -⟩
      rw [hland] at hg
      exact hno (h.above (by simp) hg)

theorem exercises_sublist {ds : List Path} (he : b.exercises t pattern = .ok ds) :
    ∃ all, b.exercises t none = .ok all ∧ ds.Sublist all := by
  rw [Plan.exercises] at he ⊢
  by_cases hdir : t.hasDirectory b.roots.solutions = true
  · simp only [hdir, if_true] at he ⊢
    cases hs : scanWith t b.excludes b.roots.solutions none false with
    | error e => simp [hs, bind, Except.bind] at he
    | ok files =>
      simp only [hs, bind, Except.bind, pure, Except.pure] at he ⊢
      refine ⟨_, rfl, ?_⟩
      split at he
      · exact withFiles_sublist he
      · rw [Except.ok.inj he]
  · simp only [hdir, Bool.false_eq_true, if_false] at he ⊢
    exact ⟨ds, he, .refl ds⟩

theorem isExercise_of_mem (h : t.WellFormed) (hb : Plan.Separate b.roots) {ds : List Path}
    (he : b.exercises t pattern = .ok ds) (hd : d ∈ ds) : IsExercise b t d := by
  obtain ⟨all, ha, hsub⟩ := exercises_sublist he
  rcases (exercises_none h hb.solutions ha d).mp (hsub.subset hd) with ⟨rfl, -⟩ | ⟨name, rfl, hg, -⟩
  · exact .inl rfl
  · exact .inr ⟨name, rfl, hg⟩

/-! ### How the build of a directory ends -/

variable {forced : Bool} {time : Int}

theorem buildFiles_cons_of_ok {script : Option SceneScript} {ps : List Path}
    (ha : (buildFiles b script forced time t (p :: ps)).abort = none)
    (hf : ∀ r ∈ (buildFiles b script forced time t (p :: ps)).result, r.failed = false) :
    ∃ u r, buildFile b t script forced p time = ⟨u, .ok r⟩ ∧ r.failed = false ∧
      (buildFiles b script forced time u ps).abort = none ∧
      (∀ r ∈ (buildFiles b script forced time u ps).result, r.failed = false) ∧
      buildFiles b script forced time t (p :: ps) =
        ⟨(buildFiles b script forced time u ps).tree,
          r :: (buildFiles b script forced time u ps).result, none⟩ := by
  rw [buildFiles] at ha hf ⊢
  cases hr : buildFile b t script forced p time with
  | mk u x =>
    cases x with
    | error a => simp [hr] at ha
    | ok r =>
      simp only [hr] at ha hf ⊢
      by_cases hfail : r.failed = true
      · simp [hfail] at hf
      · simp only [hfail, Bool.false_eq_true, if_false] at ha hf ⊢
        rw [List.forall_mem_cons] at hf
        exact ⟨u, r, rfl, hf.1, ha, hf.2, by rw [ha]⟩

theorem buildDirectory_cases (ha : (buildDirectory b t forced pattern time d).abort = none) :
    ∃ name, b.scriptName = some name ∧
      ((∃ e q, loadScript t d name = .error e ∧ buildDirectory b t forced pattern time d =
          ⟨t, ⟨d, [⟨b.scriptIn d, q, [.fail], e.message⟩]⟩, none⟩) ∨
        ∃ script files, loadScript t d name = .ok script ∧ b.filesOf t d pattern = .ok files ∧
          (buildFiles b script forced time t files).abort = none ∧
          buildDirectory b t forced pattern time d =
            ⟨(buildFiles b script forced time t files).tree,
              ⟨d, (buildFiles b script forced time t files).result⟩, none⟩) := by
  rw [buildDirectory] at ha ⊢
  cases hn : b.scriptName with
  | none => simp [hn] at ha
  | some name =>
    simp only [hn, buildWithScript] at ha ⊢
    refine ⟨name, rfl, ?_⟩
    cases hs : loadScript t d name with
    | error e =>
      simp only [hs] at ha
      cases hq : b.roots.practiceOf d with
      | error a => simp [hq] at ha
      | ok q =>
        refine .inl ⟨e, q, rfl, ?_⟩
        rw [Plan.scriptIn, hn]
        rfl
    | ok script =>
      simp only [hs] at ha ⊢
      cases hf : b.filesOf t d pattern with
      | error e => simp [hf] at ha
      | ok files =>
        simp only [hf] at ha
        refine .inr ⟨script, files, rfl, rfl, ha, ?_⟩
        simp only [ha]

theorem buildDirectory_of_ok (ha : (buildDirectory b t forced pattern time d).abort = none)
    (hok : (buildDirectory b t forced pattern time d).result.ok = true) :
    ∃ name script files, b.scriptName = some name ∧ loadScript t d name = .ok script ∧
      b.filesOf t d pattern = .ok files ∧ (buildFiles b script forced time t files).abort = none ∧
      (∀ r ∈ (buildFiles b script forced time t files).result, r.failed = false) ∧
      buildDirectory b t forced pattern time d =
        ⟨(buildFiles b script forced time t files).tree,
          ⟨d, (buildFiles b script forced time t files).result⟩, none⟩ := by
  obtain ⟨name, hn, ⟨e, q, hs, hr⟩ | ⟨script, files, hs, hf, hfiles, hr⟩⟩ := buildDirectory_cases ha
  · rw [hr] at hok
    simp [DirectoryResult.ok, FileResult.failed] at hok
  · rw [hr, DirectoryResult.ok, Bool.not_eq_true', List.any_eq_false] at hok
    exact ⟨name, script, files, hn, hs, hf, hfiles, fun r hr => Bool.eq_false_iff.mpr (hok r hr), hr⟩

theorem buildDirectories_cons {ds : List Path}
    (ha : (buildDirectories b forced pattern time t (d :: ds)).abort = none) :
    ∃ u r, buildDirectory b t forced pattern time d = ⟨u, r, none⟩ ∧
      (buildDirectories b forced pattern time u ds).abort = none ∧
      buildDirectories b forced pattern time t (d :: ds) =
        ⟨(buildDirectories b forced pattern time u ds).tree,
          r :: (buildDirectories b forced pattern time u ds).result, none⟩ := by
  rw [buildDirectories] at ha ⊢
  cases hr : buildDirectory b t forced pattern time d with
  | mk u r a =>
    cases a with
    | some a => simp [hr] at ha
    | none =>
      simp only [hr] at ha ⊢
      exact ⟨u, r, rfl, ha, by rw [ha]⟩

theorem nodup_subdirectories (h : t.WellFormed) (d : Path) : (subdirectories t d).Nodup := by
  rw [subdirectories]
  split
  · exact List.nodup_nil
  · next l hl =>
    rw [(List.mergeSort_perm _ _).nodup_iff, List.Nodup, List.pairwise_filterMap]
    refine (List.pairwise_map.mp (h.nodup_childrenOf l)).imp fun {x y} hne p hp q hq hpq => hne ?_
    simp only [Option.ite_none_right_eq_some, Option.some.injEq] at hp hq
    rw [← hp.2, ← hq.2, Path.child, Path.child, Path.mk.injEq, List.append_cancel_left_eq] at hpq
    exact List.head_eq_of_cons_eq hpq.2

theorem nodup_exercises (h : t.WellFormed) {ds : List Path}
    (he : b.exercises t pattern = .ok ds) : ds.Nodup := by
  obtain ⟨all, ha, hsub⟩ := exercises_sublist he
  apply hsub.nodup
  rw [exercises_eq ha]
  split
  · split
    · exact nodup_subdirectories h _
    · exact List.nodup_cons.mpr
        ⟨fun hm => ne_of_mem_subdirectories hm rfl, nodup_subdirectories h _⟩
  · exact List.nodup_nil

end Build

end Coursework
