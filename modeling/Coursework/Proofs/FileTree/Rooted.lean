import Coursework.FileTree.Copy
import Coursework.Proofs.FileTree.Places

namespace Coursework.FileTree

variable {t u v : FileTree} {l m here : Location} {e : Entry} {rel names : List Text}
  {content : Utf8.Bytes} {time : Int}

def atRoot (t : FileTree) : FileTree := { t with place := [] }

/-- Whether a tree is well-formed but for the place at which paths without an anchor are read. -/
def Rooted (t : FileTree) : Prop := t.atRoot.WellFormed

theorem WellFormed.rooted (h : t.WellFormed) : t.Rooted :=
  ⟨h.keys, h.names, h.parents, rfl, List.not_mem_nil⟩

theorem Rooted.above (h : t.Rooted) (hm : m ≠ []) (he : t.get? (l ++ m) = some e) :
    t.get? l = some .directory :=
  WellFormed.above (t := t.atRoot) h hm he

theorem Rooted.put (h : t.Rooted) (hl : l ≠ []) (hn : ['.', '.'] ∉ l)
    (hd : t.get? l.dropLast = some .directory) (hk : t.get? l = some .directory → e = .directory) :
    (t.put l e).Rooted :=
  WellFormed.put h hl hn hd hk

theorem Rooted.none_below (h : t.Rooted) (hf : t.get? l = none) (rel : List Text) :
    t.get? (l ++ rel) = none := by
  by_cases hnil : rel = []
  · rwa [hnil, List.append_nil]
  · cases hg : t.get? (l ++ rel) with
    | none => rfl
    | some e =>
      rw [h.above hnil hg] at hf
      cases hf

theorem Rooted.none_below_file (h : t.Rooted) (hf : t.get? l = some (.file content time))
    (hnil : rel ≠ []) : t.get? (l ++ rel) = none := by
  cases hg : t.get? (l ++ rel) with
  | none => rfl
  | some e =>
    rw [h.above hnil hg] at hf
    cases hf

theorem Rooted.not_mem_of_get? (h : t.Rooted) (hg : t.get? l = some e) : ['.', '.'] ∉ l := by
  by_cases hl : l = []
  · rw [hl]
    exact List.not_mem_nil
  · exact (h.names l (Keyed.mem_keys_of_mem (mem_keys_of_get? hl hg))).2

theorem get?_prune (t : FileTree) (hm : m ≠ []) :
    (t.prune l).get? m = if l <+: m then none else t.get? m := by
  have hp : (Path.below? l m).isNone = true ↔ ¬l <+: m := by
    rw [Option.isNone_iff_eq_none, Option.eq_none_iff_forall_ne_some]
    simp only [ne_eq, Path.below?_eq_some_iff]
    exact ⟨fun h ⟨r, hr⟩ => h r hr.symm, fun h r hr => h ⟨r, hr.symm⟩⟩
  rw [get?, get?, if_neg hm, if_neg hm, prune]
  rw [Keyed.get?_filter t.entries fun k => (Path.below? l k).isNone]
  split
  · next h => rw [if_neg (hp.mp h)]
  · next h => rw [if_pos (not_not.mp (mt hp.mpr h))]

theorem get?_prune_outside (t : FileTree) (hm : ¬l <+: m) : (t.prune l).get? m = t.get? m := by
  by_cases hn : m = []
  · rw [hn]
    rfl
  · rw [get?_prune t hn, if_neg hm]

theorem Rooted.prune (h : t.Rooted) (l : Location) : (t.prune l).Rooted where
  keys := h.keys.sublist (List.filter_sublist.map _)
  names m hm := by
    obtain ⟨f, hf, rfl⟩ := List.mem_map.mp hm
    exact h.names _ (Keyed.mem_keys_of_mem (List.mem_filter.mp hf).1)
  parents m name e he := by
    have hp : ¬l <+: m ++ [name] := fun hp => by
      have hnone : (t.prune l).get? (m ++ [name]) = none := by
        rw [get?_prune t (by simp), if_pos hp]
      rw [show (t.prune l).get? (m ++ [name]) = some e from he] at hnone
      cases hnone
    have he : (t.prune l).get? (m ++ [name]) = some e := he
    rw [get?_prune_outside t hp] at he
    change (t.prune l).get? m = some .directory
    rw [get?_prune_outside t fun hm => hp (hm.trans (List.prefix_append _ _))]
    exact h.parents m name e he
  here := rfl
  place := List.not_mem_nil

theorem WellFormed.prune (h : t.WellFormed) (hp : ¬l <+: t.place) : (t.prune l).WellFormed := by
  have hr := h.rooted.prune l
  refine ⟨hr.keys, hr.names, hr.parents, ?_, h.place⟩
  change (t.prune l).get? t.place = _
  rw [get?_prune_outside t hp]
  exact h.here

theorem file_of_prune (hg : (t.prune l).get? m = some (.file content time)) :
    t.get? m = some (.file content time) := by
  by_cases hm : m = []
  · rw [hm] at hg
    cases hg
  · rw [get?_prune t hm] at hg
    split at hg
    · cases hg
    · exact hg

theorem WellFormed.not_isPrefix_of_file (h : t.WellFormed)
    (hl : t.get? l = some (.file content time)) (hm : t.get? m = some .directory) : ¬l <+: m := by
  rintro ⟨rel, rfl⟩
  by_cases hnil : rel = []
  · rw [hnil, List.append_nil, hl] at hm
    cases hm
  · rw [h.above hnil hm] at hl
    cases hl

theorem WellFormed.directory_prune (h : t.WellFormed)
    (hl : t.get? l = some (.file content time)) (hm : t.get? m = some .directory) :
    (t.prune l).get? m = some .directory := by
  rw [get?_prune_outside t (h.not_isPrefix_of_file hl hm), hm]

theorem Rooted.extends_put (h : t.Rooted) {name : Text} (hn : ['.', '.'] ∉ here ++ [name])
    (hd : t.get? here = some .directory) (hf : t.get? (here ++ [name]) = none) :
    t.atRoot.Extends (t.put (here ++ [name]) .directory).atRoot (here ++ [name]) where
  wellFormed := h.put (by simp) hn (by rwa [List.dropLast_concat]) fun _ => rfl
  place := rfl
  get? m := by
    change (t.put (here ++ [name]) .directory).get? m = t.get? m ∨ _
    rw [get?_put _ _ (by simp)]
    split
    · next he =>
      rw [he]
      exact .inr ⟨hf, get?_put t .directory (by simp) |>.trans (if_pos rfl), List.prefix_refl _⟩
    · exact .inl rfl

theorem descend_cons {name : Text} (hd : t.get? here = some .directory)
    (hu : t.descend here (name :: names) = .ok u) :
    t.get? (here ++ [name]) = none ∧
      (t.put (here ++ [name]) .directory).descend (here ++ [name]) names = .ok u ∨
    t.get? (here ++ [name]) = some .directory ∧ t.descend (here ++ [name]) names = .ok u := by
  rw [FileTree.descend.eq_def] at hu
  simp only [hd] at hu
  cases hg : t.get? (here ++ [name]) with
  | none =>
    simp only [hg] at hu
    exact .inl ⟨rfl, hu⟩
  | some e =>
    cases e with
    | directory =>
      simp only [hg] at hu
      exact .inr ⟨rfl, hu⟩
    | file c τ => cases names <;> simp [hg] at hu

theorem get?_put_self (t : FileTree) (here : Location) (name : Text) (e : Entry) :
    (t.put (here ++ [name]) e).get? (here ++ [name]) = some e :=
  (get?_put t e (by simp)).trans (if_pos rfl)

theorem Rooted.descend (h : t.Rooted) (hn : ['.', '.'] ∉ here ++ names)
    (hd : t.get? here = some .directory) (hu : t.descend here names = .ok u) :
    t.atRoot.Extends u.atRoot (here ++ names) := by
  induction names generalizing t here with
  | nil =>
    rw [← Except.ok.inj hu, List.append_nil]
    exact WellFormed.extends_self h here
  | cons name names ih =>
    rw [List.append_cons] at hn ⊢
    have hname : ['.', '.'] ∉ here ++ [name] := fun hm => hn (List.mem_append_left _ hm)
    rcases descend_cons hd hu with ⟨hg, hu⟩ | ⟨hg, hu⟩
    · have hx := h.extends_put hname hd hg
      have hnext := get?_put_self t here name .directory
      exact hx.trans (ih hx.wellFormed hn hnext hu) (List.prefix_append _ _)
    · exact ih h hn hg hu

theorem directory_of_descend (hd : t.get? here = some .directory)
    (hu : t.descend here names = .ok u) : u.get? (here ++ names) = some .directory := by
  induction names generalizing t here with
  | nil => rwa [← Except.ok.inj hu, List.append_nil]
  | cons name names ih =>
    rw [List.append_cons]
    rcases descend_cons hd hu with ⟨-, hu⟩ | ⟨hg, hu⟩
    · exact ih (get?_put_self t here name .directory) hu
    · exact ih hg hu

theorem descend_ok (h : ∀ done, done <+: names →
    t.get? (here ++ done) = none ∨ t.get? (here ++ done) = some .directory) :
    ∃ u, t.descend here names = .ok u := by
  induction names generalizing t here with
  | nil => exact ⟨t, rfl⟩
  | cons name names ih =>
    have hhere := h [] List.nil_prefix
    have hnext := h [name] (List.prefix_append [name] names)
    have hrest : ∀ done, done <+: names → t.get? (here ++ [name] ++ done) = none ∨
        t.get? (here ++ [name] ++ done) = some .directory := fun done hdone => by
      rw [List.append_assoc]
      exact h ([name] ++ done) ((List.prefix_append_right_inj [name]).mpr hdone)
    rw [List.append_nil] at hhere
    rw [FileTree.descend.eq_def]
    rcases hnext with hg | hg
    · have hput : ∃ u,
          (t.put (here ++ [name]) .directory).descend (here ++ [name]) names = .ok u := by
        refine ih fun done hdone => ?_
        rw [get?_put t .directory (by simp)]
        split
        · exact .inr rfl
        · exact hrest done hdone
      rcases hhere with hh | hh <;> simpa only [hh, hg] using hput
    · rcases hhere with hh | hh <;> simpa only [hh, hg] using ih hrest

theorem descend_concat {name : Text} (hd : ∀ m, m <+: names → t.get? (here ++ m) = some .directory)
    (hf : t.get? (here ++ names ++ [name]) = none) :
    t.descend here (names ++ [name]) = .ok (t.put (here ++ names ++ [name]) .directory) := by
  induction names generalizing here with
  | nil =>
    have hhere : t.get? here = some .directory := by simpa using hd [] List.nil_prefix
    rw [List.append_nil] at hf
    rw [List.nil_append, List.append_nil, FileTree.descend]
    simp only [hhere, hf, FileTree.descend]
  | cons name' names ih =>
    have hhere : t.get? here = some .directory := by simpa using hd [] List.nil_prefix
    have hnext : t.get? (here ++ [name']) = some .directory :=
      hd [name'] (List.prefix_append [name'] names)
    rw [List.append_cons here name' names] at hf ⊢
    rw [List.cons_append, FileTree.descend.eq_def]
    simp only [hhere, hnext]
    refine ih (fun m hm => ?_) hf
    rw [← List.append_cons]
    exact hd (name' :: m) (List.cons_prefix_cons.mpr ⟨rfl, hm⟩)

theorem Rooted.makeWay (h : t.Rooted) (hf : t.get? l = none)
    (hd : t.get? l.dropLast = some .directory) : t.makeWay l = .ok (t.put l .directory) := by
  have hne : l ≠ [] := by
    rintro rfl
    cases hf
  have hway : ∀ m, m <+: l.dropLast → t.get? ([] ++ m) = some .directory := by
    rintro m ⟨rest, hm⟩
    by_cases hnil : rest = []
    · rwa [← hm, hnil, List.append_nil] at hd
    · exact h.above hnil (hm ▸ hd)
  have hlast := List.dropLast_append_getLast hne
  have hfree : t.get? ([] ++ l.dropLast ++ [l.getLast hne]) = none := by
    rwa [List.nil_append, hlast]
  have hdescend := descend_concat hway hfree
  rw [List.nil_append, hlast] at hdescend
  rw [FileTree.makeWay]
  simp only [hf, hdescend]

theorem makeWay_ok (hu : t.makeWay l = .ok u) : t.get? l = none ∧ t.descend [] l = .ok u := by
  rw [FileTree.makeWay] at hu
  split at hu
  · cases hu
  · cases hu
  · next hf hd => exact ⟨hf, hd.trans (congrArg _ (Except.ok.inj hu))⟩

end Coursework.FileTree
