import Mathlib.Data.List.Infix
import Coursework.Path
import Coursework.Proofs.Text.Pieces
import Coursework.Proofs.Keyed
import Coursework.Scene.Basic

namespace Coursework.Scene

open Text

instance : DecidablePred Path.IsPart := fun w =>
  inferInstanceAs (Decidable (w ≠ [] ∧ w ≠ ['.'] ∧ '/' ∉ w))

abbrev Parts (names : List Text) : Prop := ∀ w ∈ names, Path.IsPart w

theorem parts_nil : Parts [] := by simp [Parts]

theorem parts_singleton {w : Text} (h : Path.IsPart w) : Parts [w] := by simpa [Parts] using h

theorem Parts.append {as bs : List Text} (ha : Parts as) (hb : Parts bs) : Parts (as ++ bs) := by
  intro w hw
  exact (List.mem_append.mp hw).elim (ha w) (hb w)

theorem Parts.join_ne_nil {names : List Text} (h : Parts names) (hne : names ≠ []) :
    Text.join ['/'] names ≠ [] := by
  cases names with
  | nil => exact absurd rfl hne
  | cons w ws =>
    rw [join_eq_append_flatMap]
    exact fun hn => (h w (by simp)).1 (List.append_eq_nil_iff.mp hn).1

namespace Forest

theorem pathText_of_ne_nil {names : List Text} (h : Parts names) (hne : names ≠ []) :
    pathText names = Text.join ['/'] names := by
  simp [pathText, h.join_ne_nil hne]

theorem splitOn_pathText {names : List Text} (h : Parts names) (hne : names ≠ []) :
    Text.splitOn '/' (pathText names) = names := by
  rw [pathText_of_ne_nil h hne]
  exact splitOn_join hne fun w hw => (h w hw).2.2

theorem pathText_ne_dot {names : List Text} (h : Parts names) (hne : names ≠ []) :
    pathText names ≠ ['.'] := by
  intro hd
  have hs := splitOn_pathText h hne
  rw [hd] at hs
  exact (h ['.'] (by rw [← hs]; decide)).2.1 rfl

theorem pathText_inj {as bs : List Text} (ha : Parts as) (hb : Parts bs)
    (h : pathText as = pathText bs) : as = bs := by
  have hnil : pathText [] = ['.'] := rfl
  by_cases has : as = []
  · by_contra hne
    subst has
    exact pathText_ne_dot hb (fun hbs => hne hbs.symm) (h ▸ hnil)
  · by_cases hbs : bs = []
    · subst hbs
      exact absurd (h.trans hnil) (pathText_ne_dot ha has)
    · rw [← splitOn_pathText ha has, h, splitOn_pathText hb hbs]

theorem unbroken_pathText {names : List Text} (h : ∀ w ∈ names, Unbroken w) :
    Unbroken (pathText names) := by
  have hj : Unbroken (Text.join ['/'] names) := unbroken_join (by simp [isLineBreak]) h
  by_cases hn : Text.join ['/'] names = []
  · simp [pathText, hn, isLineBreak]
  · simpa [pathText, hn] using hj

end Forest

def Node.innerNames (n : Node) : List Text :=
  if n.inner = [] then [] else Text.splitOn '/' n.inner

theorem Node.steps_eq (n : Node) : n.steps = n.innerNames ++ [n.name] := rfl

theorem Node.innerNames_eq_nil {n : Node} : n.innerNames = [] ↔ n.inner = [] := by
  unfold innerNames
  split
  · simp_all
  · simp_all [Text.splitOn_ne_nil]

theorem Node.join_innerNames (n : Node) : Text.join ['/'] n.innerNames = n.inner := by
  unfold innerNames
  split
  · next h => rw [h]; rfl
  · exact Text.join_splitOn _ _

theorem Node.innerNames_join {n : Node} {names : List Text} (h : Parts names)
    (hn : n.inner = Text.join ['/'] names) : n.innerNames = names := by
  by_cases hne : names = []
  · subst hne
    exact innerNames_eq_nil.mpr hn
  · rw [innerNames, hn, if_neg (h.join_ne_nil hne)]
    exact splitOn_join hne fun w hw => (h w hw).2.2

theorem Forest.parentPath_eq {f : Forest} {x p : NodeId} (hx : f.parentOf x = some p)
    (hp : Parts (f.segments p)) (hi : Parts (f.node x).innerNames) :
    f.parentPath x = some (pathText (f.segments p ++ (f.node x).innerNames)) := by
  simp only [parentPath, hx, Option.map_some]
  by_cases hin : (f.node x).inner = []
  · rw [if_pos hin, Node.innerNames_eq_nil.mpr hin, List.append_nil]
    rfl
  · have hne : (f.node x).innerNames ≠ [] := fun h => hin (Node.innerNames_eq_nil.mp h)
    rw [if_neg hin, pathText_of_ne_nil (hp.append hi) (by simp [hne])]
    by_cases hs : f.segments p = []
    · have hd : f.path p = ['.'] := by rw [path, hs]; rfl
      rw [if_pos hd, hs, List.nil_append, Node.join_innerNames]
    · have hd : f.path p ≠ ['.'] := pathText_ne_dot hp hs
      rw [if_neg hd, path, pathText_of_ne_nil hp hs, Text.join_append _ hs hne, Node.join_innerNames]

variable {f : Forest} {paths : Paths} {names : List Text} {id : NodeId} {inner : Text}

structure Nearest (paths : Paths) (names : List Text) (id : NodeId) (beginning rest : List Text) :
    Prop where
  names : names = beginning ++ rest
  node : Keyed.get? paths (Forest.pathText beginning) = some id
  longest : ∀ j, 0 < j → j ≤ rest.length →
    Keyed.get? paths (Forest.pathText (beginning ++ rest.take j)) = none

theorem ancestorFrom_of_nearest {b r : List Text} (h : Nearest paths names id b r)
    (hi : f.instanced id = true) {cut : Nat} (hc : b.length ≤ cut) (hn : cut ≤ names.length) :
    ancestorFrom f paths names cut = some (id, Text.join ['/'] r) := by
  have hb : names.take b.length = b := by simp [h.names]
  have hr : names.drop b.length = r := by simp [h.names]
  have ha : ancestorFrom.answer f paths names b.length = some (id, Text.join ['/'] r) := by
    simp [ancestorFrom.answer, hb, hr, h.node, hi]
  -- from the whole path down: no longer beginning has a node
  induction cut with
  | zero =>
    rw [Nat.le_zero.mp hc] at ha
    exact ha
  | succ cut ih =>
    rw [ancestorFrom]
    by_cases he : b.length = cut + 1
    · rw [← he, hb, h.node]
      exact ha
    · have htake : names.take (cut + 1) = b ++ r.take (cut + 1 - b.length) := by
        rw [h.names, List.take_append, List.take_of_length_le hc]
      have hlen := congrArg List.length h.names
      rw [List.length_append] at hlen
      rw [htake, h.longest _ (by omega) (by omega)]
      exact ih (by omega) (by omega)

theorem ancestorFrom_eq_some {cut : Nat} (h : ancestorFrom f paths names cut = some (id, inner)) :
    ∃ c ≤ cut, Keyed.get? paths (Forest.pathText (names.take c)) = some id ∧
      (∀ d, c < d → d ≤ cut → Keyed.get? paths (Forest.pathText (names.take d)) = none) ∧
      inner = Text.join ['/'] (names.drop c) ∧ f.instanced id = true := by
  have answered : ∀ c, ancestorFrom.answer f paths names c = some (id, inner) →
      Keyed.get? paths (Forest.pathText (names.take c)) = some id ∧
        inner = Text.join ['/'] (names.drop c) ∧ f.instanced id = true := by
    intro c hc
    obtain ⟨i, hi, hc⟩ := Option.bind_eq_some_iff.mp hc
    split at hc
    · next hf =>
      obtain ⟨rfl, rfl⟩ := Prod.mk.inj (Option.some.inj hc)
      exact ⟨hi, rfl, hf⟩
    · cases hc
  induction cut with
  | zero =>
    obtain ⟨hi, hr, hf⟩ := answered 0 h
    exact ⟨0, Nat.le_refl _, hi, fun d h1 h2 => by omega, hr, hf⟩
  | succ cut ih =>
    rw [ancestorFrom] at h
    split at h
    · obtain ⟨hi, hr, hf⟩ := answered _ h
      exact ⟨cut + 1, Nat.le_refl _, hi, fun d h1 h2 => by omega, hr, hf⟩
    · next hn =>
      obtain ⟨c, hc, hi, hl, hr, hf⟩ := ih h
      refine ⟨c, by omega, hi, fun d h1 h2 => ?_, hr, hf⟩
      by_cases he : d = cut + 1
      · exact he ▸ hn
      · exact hl d h1 (by omega)

theorem nearest_of_ancestorFrom {cut : Nat}
    (hl : ∀ c, cut < c → c ≤ names.length →
      Keyed.get? paths (Forest.pathText (names.take c)) = none)
    (h : ancestorFrom f paths names cut = some (id, inner)) :
    ∃ b r, Nearest paths names id b r ∧ inner = Text.join ['/'] r ∧ f.instanced id = true := by
  obtain ⟨c, hcc, hi, hn, hr, hf⟩ := ancestorFrom_eq_some h
  refine ⟨names.take c, names.drop c, ⟨(List.take_append_drop c names).symm, hi, ?_⟩, hr, hf⟩
  intro j hj hjl
  rw [List.length_drop] at hjl
  rw [← List.take_add]
  by_cases hd : c + j ≤ cut
  · exact hn _ (by omega) hd
  · exact hl _ (by omega) (by omega)

theorem parentFor_of_declared {i : NodeId}
    (hg : Keyed.get? paths (Forest.pathText names) = some i) :
    parentFor f paths (Forest.pathText names) = some (id, inner) ↔
      ∃ b r, Nearest paths names id b r ∧ inner = Text.join ['/'] r ∧
        (r ≠ [] → f.instanced id = true) := by
  simp only [parentFor, hg]
  constructor
  · intro h
    obtain ⟨rfl, rfl⟩ := Prod.mk.inj (Option.some.inj h)
    refine ⟨names, [], ⟨(List.append_nil _).symm, hg, ?_⟩, rfl, by simp⟩
    intro j hj hl
    simp only [List.length_nil] at hl
    omega
  · rintro ⟨b, r, h, rfl, -⟩
    by_cases hr : r = []
    · have hi := h.node
      rw [show b = names by rw [h.names, hr, List.append_nil], hg] at hi
      rw [Option.some.inj hi, hr]
      rfl
    · have hl := h.longest r.length (List.length_pos_iff.mpr hr) (Nat.le_refl _)
      rw [List.take_length, ← h.names, hg] at hl
      cases hl

theorem parentFor_of_undeclared (hn : Parts names)
    (hg : Keyed.get? paths (Forest.pathText names) = none) :
    parentFor f paths (Forest.pathText names) = some (id, inner) ↔
      ∃ b r, Nearest paths names id b r ∧ inner = Text.join ['/'] r ∧
        (r ≠ [] → f.instanced id = true) := by
  have hnone : ∀ {b r}, Nearest paths names id b r → r ≠ [] := by
    rintro b r h rfl
    have hi := h.node
    rw [show b = names by rw [h.names, List.append_nil], hg] at hi
    cases hi
  simp only [parentFor, hg]
  by_cases hne : names = []
  · subst hne
    constructor
    · intro h
      have hd : Keyed.get? paths ['.'] = none := hg
      simp [ancestorFrom, ancestorFrom.answer, Forest.pathText, Text.join, Text.splitOn, hd] at h
    · rintro ⟨b, r, h, -, -⟩
      have he := h.names
      exact absurd (List.append_eq_nil_iff.mp he.symm).2 (hnone h)
  · have hpos := List.length_pos_iff.mpr hne
    simp only [Forest.splitOn_pathText hn hne]
    constructor
    · intro h
      obtain ⟨b, r, hb, hr, hi⟩ := nearest_of_ancestorFrom (fun c h1 h2 => by
        rw [List.take_of_length_le (by omega)]
        exact hg) h
      exact ⟨b, r, hb, hr, fun _ => hi⟩
    · rintro ⟨b, r, hb, rfl, hi⟩
      have hr := hnone hb
      have hlen := congrArg List.length hb.names
      have := List.length_pos_iff.mpr hr
      rw [List.length_append] at hlen
      exact ancestorFrom_of_nearest hb (hi hr) (by omega) (by omega)

theorem parentFor_eq_some_iff (hn : Parts names) :
    parentFor f paths (Forest.pathText names) = some (id, inner) ↔
      ∃ b r, Nearest paths names id b r ∧ inner = Text.join ['/'] r ∧
        (r ≠ [] → f.instanced id = true) := by
  cases hg : Keyed.get? paths (Forest.pathText names) with
  | some i => exact parentFor_of_declared hg
  | none => exact parentFor_of_undeclared hn hg

end Coursework.Scene
