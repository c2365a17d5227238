import Mathlib.Data.List.Infix
import Coursework.FileTree.Basic
import Coursework.Proofs.Keyed

namespace Coursework

namespace Path

def Descends (p : Path) : Prop := ['.', '.'] ∉ p.parts

instance : DecidablePred Descends := fun p => inferInstanceAs (Decidable (['.', '.'] ∉ p.parts))

def under (p : Path) (rel : List Text) : Path := ⟨p.anchor, p.parts ++ rel⟩

@[simp] theorem under_nil (p : Path) : p.under [] = p := by simp [under]

theorem under_under (p : Path) (as bs : List Text) :
    (p.under as).under bs = p.under (as ++ bs) := by
  simp [under]

theorem parent_under_concat (p : Path) (rel : List Text) (name : Text) :
    (p.under (rel ++ [name])).parent = p.under rel := by
  simp [under, parent, ← List.append_assoc]

theorem Descends.under {p : Path} (h : p.Descends) {rel : List Text} (hr : ['.', '.'] ∉ rel) :
    (p.under rel).Descends := by
  simp [Descends, Path.under, hr, show ['.', '.'] ∉ p.parts from h]

theorem Descends.parent {p : Path} (h : p.Descends) : p.parent.Descends := fun hm =>
  h ((List.dropLast_sublist _).subset hm)

end Path

namespace FileTree

/-- Each location is listed once and lies in a directory; no name there leads up. -/
structure WellFormed (t : FileTree) : Prop where
  keys : (Keyed.keys t.entries).Nodup
  names : ∀ l ∈ Keyed.keys t.entries, l ≠ [] ∧ ['.', '.'] ∉ l
  parents : ∀ l name e, t.get? (l ++ [name]) = some e → t.get? l = some .directory
  here : t.get? t.place = some .directory
  place : ['.', '.'] ∉ t.place

variable {t u v : FileTree} {p : Path} {l m : Location} {e : Entry}

@[simp] theorem place_put (t : FileTree) (l : Location) (e : Entry) :
    (t.put l e).place = t.place := rfl

@[simp] theorem get?_nil (t : FileTree) : t.get? [] = some .directory := rfl

theorem mem_keys_of_get? (hl : l ≠ []) (h : t.get? l = some e) : (l, e) ∈ t.entries := by
  rw [get?, if_neg hl] at h
  exact Keyed.mem_of_get? h

theorem WellFormed.get?_of_mem (h : t.WellFormed) (hm : (l, e) ∈ t.entries) :
    t.get? l = some e := by
  rw [get?, if_neg (h.names l (Keyed.mem_keys_of_mem hm)).1]
  exact Keyed.get?_of_mem h.keys hm

theorem WellFormed.above (h : t.WellFormed) (hm : m ≠ []) (he : t.get? (l ++ m) = some e) :
    t.get? l = some .directory := by
  induction m using List.reverseRecOn generalizing e with
  | nil => exact absurd rfl hm
  | append_singleton m name ih =>
    rw [← List.append_assoc] at he
    have hd := h.parents _ _ _ he
    by_cases hn : m = []
    · rwa [hn, List.append_nil] at hd
    · exact ih hn hd

theorem WellFormed.above_dropLast (h : t.WellFormed) (he : t.get? l = some e) :
    t.get? l.dropLast = some .directory := by
  by_cases hl : l = []
  · rw [hl]
    rfl
  · rw [← List.dropLast_append_getLast hl] at he
    exact h.parents _ _ _ he

theorem wellFormed_iff (t : FileTree) : t.WellFormed ↔ (Keyed.keys t.entries).Nodup ∧
    (∀ l ∈ Keyed.keys t.entries, l ≠ [] ∧ ['.', '.'] ∉ l ∧ t.get? l.dropLast = some .directory) ∧
    t.get? t.place = some .directory ∧ ['.', '.'] ∉ t.place := by
  constructor
  · intro h
    refine ⟨h.keys, fun l hl => ?_, h.here, h.place⟩
    obtain ⟨⟨l, e⟩, hm, rfl⟩ := List.mem_map.mp hl
    exact ⟨(h.names l hl).1, (h.names l hl).2, h.above_dropLast (h.get?_of_mem hm)⟩
  · rintro ⟨hkeys, hall, hhere, hplace⟩
    refine ⟨hkeys, fun l hl => ⟨(hall l hl).1, (hall l hl).2.1⟩, fun l name e he => ?_, hhere,
      hplace⟩
    have hm := Keyed.mem_keys_of_mem (mem_keys_of_get? (by simp) he)
    have hd := (hall _ hm).2.2
    rwa [List.dropLast_concat] at hd

instance : DecidablePred WellFormed := fun t => decidable_of_iff _ (wellFormed_iff t).symm

theorem WellFormed.put (h : t.WellFormed) (hl : l ≠ []) (hn : ['.', '.'] ∉ l)
    (hd : t.get? l.dropLast = some .directory) (hk : t.get? l = some .directory → e = .directory) :
    (t.put l e).WellFormed where
  keys := Keyed.nodup_keys_set h.keys l e
  names m hm := by
    rw [FileTree.put, Keyed.keys_set] at hm
    split at hm
    · exact h.names m hm
    · rcases List.mem_append.mp hm with hm | hm
      · exact h.names m hm
      · rw [List.mem_singleton.mp hm]
        exact ⟨hl, hn⟩
  parents m name f hf := by
    rw [get?_put _ _ hl] at hf ⊢
    split at hf
    · next he =>
      rw [← he, List.dropLast_concat] at hd
      split
      · next hml =>
        rw [hml, ← he] at hd
        have := congrArg List.length (hml.trans he.symm)
        simp at this
      · exact hd
    · have hm := h.parents m name f hf
      split
      · next hml => rw [hk (hml ▸ hm)]
      · exact hm
  here := by
    rw [place_put, get?_put _ _ hl]
    split
    · next hp => rw [hk (hp ▸ h.here)]
    · exact h.here
  place := h.place

def base (t : FileTree) (a : Path.Anchor) : Location := if a = .here then t.place else []

def landing (t : FileTree) (p : Path) : Location := t.base p.anchor ++ p.parts

theorem landing_under (t : FileTree) (p : Path) (rel : List Text) :
    t.landing (p.under rel) = t.landing p ++ rel := by
  simp [landing, Path.under]

theorem landing_parent (hp : p.parts ≠ []) : t.landing p.parent = (t.landing p).dropLast := by
  simp [landing, Path.parent, List.dropLast_append_of_ne_nil hp]

theorem landing_congr (h : u.place = t.place) (p : Path) : u.landing p = t.landing p := by
  rw [landing, landing, base, base, h]

theorem WellFormed.descends_landing (h : t.WellFormed) (hp : p.Descends) :
    ['.', '.'] ∉ t.landing p := by
  rw [landing, List.mem_append]
  rintro (hm | hm)
  · rw [base] at hm
    split at hm
    · exact h.place hm
    · cases hm
  · exact hp hm

theorem follow_ok {here names : List Text} (hn : ['.', '.'] ∉ names)
    (h : t.follow here names = .ok l) :
    l = here ++ names ∧ (names ≠ [] → t.get? (here ++ names.dropLast) = some .directory) := by
  induction names generalizing here with
  | nil =>
    obtain rfl := Except.ok.inj h
    simp
  | cons name names ih =>
    rw [List.mem_cons, not_or] at hn
    rw [follow] at h
    split at h
    · cases h
    · cases h
    · next hd =>
      rw [if_neg (Ne.symm hn.1)] at h
      obtain ⟨rfl, hall⟩ := ih hn.2 h
      refine ⟨by simp, fun _ => ?_⟩
      by_cases hnil : names = []
      · simpa [hnil] using hd
      · rw [List.dropLast_cons_of_ne_nil hnil]
        simpa using hall hnil

theorem follow_of_directories {here names : List Text} (hn : ['.', '.'] ∉ names)
    (hd : ∀ m, m <+: names → m ≠ names → t.get? (here ++ m) = some .directory) :
    t.follow here names = .ok (here ++ names) := by
  induction names generalizing here with
  | nil => rw [follow, List.append_nil]
  | cons name names ih =>
    rw [List.mem_cons, not_or] at hn
    have hhere : t.get? here = some .directory := by
      simpa using hd [] List.nil_prefix (List.cons_ne_nil _ _).symm
    have hnext : ∀ m, m <+: names → m ≠ names →
        t.get? (here ++ [name] ++ m) = some .directory := fun m hm hne => by
      rw [← List.append_cons]
      exact hd (name :: m) (List.cons_prefix_cons.mpr ⟨rfl, hm⟩) fun he =>
        hne (List.cons.inj he).2
    rw [follow]
    simp only [hhere, if_neg (Ne.symm hn.1)]
    rw [ih hn.2 hnext, ← List.append_cons]

theorem WellFormed.follow (h : t.WellFormed) {here names : List Text} (hn : ['.', '.'] ∉ names)
    (hd : names ≠ [] → t.get? (here ++ names.dropLast) = some .directory) :
    t.follow here names = .ok (here ++ names) := by
  refine follow_of_directories hn fun m hm hne => ?_
  obtain ⟨rest, rfl⟩ := hm
  have hnil : rest ≠ [] := fun he => hne (by rw [he, List.append_nil])
  have hlast := hd (by simp [hnil])
  rw [List.dropLast_append_of_ne_nil hnil, ← List.append_assoc] at hlast
  by_cases hend : rest.dropLast = []
  · rwa [hend, List.append_nil] at hlast
  · exact h.above hend hlast

theorem WellFormed.locate_eq_ok_iff (h : t.WellFormed) (hp : p.Descends) : t.locate p = .ok l ↔
    l = t.landing p ∧ (p.parts ≠ [] → t.get? (t.landing p.parent) = some .directory) := by
  constructor
  · intro hl
    obtain ⟨rfl, hd⟩ := follow_ok hp hl
    exact ⟨rfl, hd⟩
  · rintro ⟨rfl, hd⟩
    exact h.follow hp hd

theorem WellFormed.locate_of_get? (h : t.WellFormed) (hp : p.Descends)
    (hg : t.get? (t.landing p) = some e) : t.locate p = .ok (t.landing p) := by
  refine (h.locate_eq_ok_iff hp).mpr ⟨rfl, fun hne => ?_⟩
  rw [landing_parent hne]
  exact h.above_dropLast hg

theorem WellFormed.entry_eq (h : t.WellFormed) (hp : p.Descends) :
    t.entry p = t.get? (t.landing p) := by
  rw [entry]
  cases hl : t.locate p with
  | ok l => rw [((h.locate_eq_ok_iff hp).mp hl).1]
  | error o =>
    cases hg : t.get? (t.landing p) with
    | none => rfl
    | some e =>
      rw [h.locate_of_get? hp hg] at hl
      cases hl

variable {rel : List Text}

theorem WellFormed.mem_filesBelow (h : t.WellFormed) {c : Utf8.Bytes} {τ : Int} :
    (rel, c, τ) ∈ t.filesBelow l ↔ t.get? (l ++ rel) = some (.file c τ) := by
  rw [filesBelow, List.mem_filterMap]
  constructor
  · rintro ⟨⟨m, e⟩, hm, he⟩
    cases e with
    | directory => cases he
    | file c' τ' =>
      obtain ⟨rel', hr, he⟩ := Option.map_eq_some_iff.mp he
      obtain ⟨rfl, rfl, rfl⟩ := he
      rw [← Path.below?_eq_some_iff.mp hr]
      exact h.get?_of_mem hm
  · intro hg
    have hne : l ++ rel ≠ [] := by
      intro hn
      rw [hn] at hg
      cases hg
    exact ⟨_, mem_keys_of_get? hne hg, by simp [Path.below?_eq_some_iff.mpr rfl]⟩

theorem WellFormed.nodup_filesBelow (h : t.WellFormed) (l : Location) :
    ((t.filesBelow l).map Prod.fst).Nodup := by
  have hkeys : t.entries.Pairwise fun e f => e.1 ≠ f.1 := List.pairwise_map.mp h.keys
  rw [filesBelow, List.Nodup, List.pairwise_map, List.pairwise_filterMap]
  refine hkeys.imp fun {e f} hne x hx y hy hxy => ?_
  obtain ⟨m, e⟩ := e
  obtain ⟨n, f⟩ := f
  cases e with
  | directory => cases hx
  | file c τ =>
    cases f with
    | directory => cases hy
    | file c' τ' =>
      obtain ⟨r, hr, rfl⟩ := Option.map_eq_some_iff.mp hx
      obtain ⟨r', hr', rfl⟩ := Option.map_eq_some_iff.mp hy
      obtain rfl : r = r' := hxy
      exact hne ((Path.below?_eq_some_iff.mp hr).trans (Path.below?_eq_some_iff.mp hr').symm)

theorem WellFormed.mem_childrenOf (h : t.WellFormed) {name : Text} {e : Entry} :
    (name, e) ∈ t.childrenOf l ↔ t.get? (l ++ [name]) = some e := by
  rw [childrenOf, List.mem_filterMap]
  constructor
  · rintro ⟨⟨m, f⟩, hm, he⟩
    simp only at he
    split at he
    · next name' hb =>
      obtain ⟨rfl, rfl⟩ := Prod.mk.inj (Option.some.inj he)
      rw [← Path.below?_eq_some_iff.mp hb]
      exact h.get?_of_mem hm
    · cases he
  · intro hg
    exact ⟨_, mem_keys_of_get? (by simp) hg, by simp [Path.below?_eq_some_iff.mpr rfl]⟩

theorem WellFormed.nodup_childrenOf (h : t.WellFormed) (l : Location) :
    ((t.childrenOf l).map Prod.fst).Nodup := by
  have hkeys : t.entries.Pairwise fun e f => e.1 ≠ f.1 := List.pairwise_map.mp h.keys
  rw [childrenOf, List.Nodup, List.pairwise_map, List.pairwise_filterMap]
  refine hkeys.imp fun {e f} hne x hx y hy hxy => hne ?_
  simp only at hx hy
  split at hx
  · next name hb =>
    split at hy
    · next name' hb' =>
      obtain rfl := Option.some.inj hx
      obtain rfl := Option.some.inj hy
      obtain rfl : name = name' := hxy
      rw [Path.below?_eq_some_iff.mp hb, Path.below?_eq_some_iff.mp hb']
    · cases hy
  · cases hx

theorem WellFormed.not_mem_of_get? (h : t.WellFormed) {e : Entry}
    (hg : t.get? (l ++ rel) = some e) : ['.', '.'] ∉ rel := by
  intro hm
  have hne : l ++ rel ≠ [] := by
    intro hn
    rw [(List.append_eq_nil_iff.mp hn).2] at hm
    cases hm
  have hk := Keyed.mem_keys_of_mem (mem_keys_of_get? hne hg)
  exact (h.names _ hk).2 (List.mem_append_right _ hm)

end FileTree

end Coursework
