import Mathlib.Data.List.Induction
import Mathlib.Data.List.Basic
import Mathlib.Data.List.Nodup
import Coursework.Keyed

namespace Coursework.Keyed

variable {κ α : Type} [DecidableEq κ]

omit [DecidableEq κ] in
@[simp] theorem keys_nil : keys ([] : Keyed κ α) = [] := rfl

omit [DecidableEq κ] in
@[simp] theorem keys_cons (f : κ × α) (fs : Keyed κ α) : keys (f :: fs) = f.1 :: keys fs := rfl

omit [DecidableEq κ] in
@[simp] theorem keys_append (fs gs : Keyed κ α) : keys (fs ++ gs) = keys fs ++ keys gs := by
  simp [keys]

omit [DecidableEq κ] in
theorem mem_keys_of_mem {fs : Keyed κ α} {f : κ × α} (h : f ∈ fs) : f.1 ∈ keys fs :=
  List.mem_map_of_mem h

theorem mem_of_get? {fs : Keyed κ α} {key : κ} {v : α} (h : get? fs key = some v) :
    (key, v) ∈ fs := by
  induction fs with
  | nil => simp [get?] at h
  | cons f fs ih =>
    obtain ⟨k, w⟩ := f
    by_cases hk : k = key
    · subst hk
      obtain rfl : w = v := by simpa [get?] using h
      simp
    · exact List.mem_cons_of_mem _ (ih (by simpa [get?, hk] using h))

theorem get?_eq_none_iff {fs : Keyed κ α} {key : κ} : get? fs key = none ↔ key ∉ keys fs := by
  induction fs with
  | nil => simp [get?]
  | cons f fs ih =>
    obtain ⟨k, w⟩ := f
    by_cases hk : k = key
    · simp [get?, hk]
    · simp [get?, hk, ih, Ne.symm hk]

theorem has_iff {fs : Keyed κ α} {key : κ} : has fs key = true ↔ key ∈ keys fs := by
  rw [has, Option.isSome_iff_ne_none, Ne, get?_eq_none_iff, not_not]

theorem get?_of_mem {fs : Keyed κ α} (h : (keys fs).Nodup) {f : κ × α} (hf : f ∈ fs) :
    get? fs f.1 = some f.2 := by
  induction fs with
  | nil => simp at hf
  | cons g fs ih =>
    obtain ⟨hg, hn⟩ := List.nodup_cons.mp h
    rcases List.mem_cons.mp hf with rfl | hf
    · simp [get?]
    · have hne : g.1 ≠ f.1 := fun he => hg (he ▸ mem_keys_of_mem hf)
      simp [get?, hne, ih hn hf]

theorem get?_append (fs gs : Keyed κ α) (key : κ) :
    get? (fs ++ gs) key = (get? fs key).or (get? gs key) := by
  induction fs with
  | nil => simp [get?]
  | cons f fs ih => by_cases hk : f.1 = key <;> simp [get?, hk, ih]

theorem set_of_not_mem {fs : Keyed κ α} {key : κ} (v : α) (h : key ∉ keys fs) :
    set fs key v = fs ++ [(key, v)] := by
  induction fs with
  | nil => rfl
  | cons f fs ih =>
    simp only [keys_cons, List.mem_cons, not_or] at h
    simp [set, Ne.symm h.1, ih h.2]

theorem set_append {fs : Keyed κ α} (gs : Keyed κ α) {key : κ} (v : α) (h : key ∉ keys fs) :
    set (fs ++ gs) key v = fs ++ set gs key v := by
  induction fs with
  | nil => rfl
  | cons f fs ih =>
    simp only [keys_cons, List.mem_cons, not_or] at h
    simp [set, Ne.symm h.1, ih h.2]

theorem set_set (fs : Keyed κ α) (key : κ) (v w : α) : set (set fs key v) key w = set fs key w := by
  induction fs with
  | nil => simp [set]
  | cons f fs ih => by_cases hk : f.1 = key <;> simp [set, hk, ih]

theorem mem_keys_set {fs : Keyed κ α} {key k : κ} {v : α} :
    k ∈ keys (set fs key v) ↔ k ∈ keys fs ∨ k = key := by
  rw [keys_set]
  split
  · next hk => exact ⟨.inl, fun h => h.elim id fun he => he ▸ hk⟩
  · simp

theorem set_ne_nil (fs : Keyed κ α) (key : κ) (v : α) : set fs key v ≠ [] := by
  intro he
  have hm : key ∈ keys (set fs key v) := mem_keys_set.mpr (.inr rfl)
  rw [he] at hm
  cases hm

theorem nodup_keys_set {fs : Keyed κ α} (h : (keys fs).Nodup) (key : κ) (v : α) :
    (keys (set fs key v)).Nodup := by
  rw [keys_set]
  split
  · exact h
  · next hk => exact List.nodup_append.mpr ⟨h, by simp, by simp; rintro a ha rfl; exact hk ha⟩

theorem mem_set {fs : Keyed κ α} {key : κ} {v : α} {f : κ × α} (h : f ∈ set fs key v) :
    f ∈ fs ∨ f = (key, v) := by
  induction fs with
  | nil => exact .inr (by simpa [set] using h)
  | cons g fs ih =>
    by_cases hk : g.1 = key
    · simp only [set, hk, if_true, List.mem_cons] at h
      rcases h with rfl | h
      · exact .inr rfl
      · exact .inl (List.mem_cons_of_mem _ h)
    · simp only [set, hk, if_false, List.mem_cons] at h
      rcases h with rfl | h
      · exact .inl (by simp)
      · exact (ih h).imp (List.mem_cons_of_mem _) id

theorem nodup_keys_update {fs : Keyed κ α} (gs : Keyed κ α) (h : (keys fs).Nodup) :
    (keys (update fs gs)).Nodup := by
  unfold update
  induction gs generalizing fs with
  | nil => exact h
  | cons g gs ih => exact ih (nodup_keys_set h g.1 g.2)

theorem nodup_keys_ofList (fs : List (κ × α)) : (keys (ofList fs)).Nodup :=
  nodup_keys_update fs (by simp)

theorem mem_update {fs gs : Keyed κ α} {f : κ × α} (h : f ∈ update fs gs) : f ∈ fs ∨ f ∈ gs := by
  unfold update at h
  induction gs generalizing fs with
  | nil => exact .inl h
  | cons g gs ih =>
    rcases ih h with h | h
    · rcases mem_set h with h | rfl
      · exact .inl h
      · exact .inr (by simp)
    · exact .inr (List.mem_cons_of_mem _ h)

theorem mem_of_mem_ofList {fs : List (κ × α)} {f : κ × α} (h : f ∈ ofList fs) : f ∈ fs := by
  simpa using mem_update h

theorem update_of_nodup {fs gs : Keyed κ α} (h : (keys (fs ++ gs)).Nodup) :
    update fs gs = fs ++ gs := by
  induction gs generalizing fs with
  | nil => simp [update]
  | cons g gs ih =>
    have hg : g.1 ∉ keys fs := by
      intro hm
      simp only [keys_append, keys_cons, List.nodup_append] at h
      exact h.2.2 _ hm _ (by simp) rfl
    have hs : update fs (g :: gs) = update (fs ++ [g]) gs := by
      simp [update, set_of_not_mem g.2 hg]
    rw [hs, ih (by simpa using h)]
    simp

theorem ofList_of_nodup {fs : List (κ × α)} (h : (keys fs).Nodup) : ofList fs = fs := by
  have hu := @update_of_nodup κ α _ [] fs h
  simpa [ofList] using hu

theorem ofList_concat (fs : List (κ × α)) (f : κ × α) :
    ofList (fs ++ [f]) = set (ofList fs) f.1 f.2 := by
  simp [ofList, update]

theorem get?_ofList_eq_none_iff {fs : List (κ × α)} {key : κ} :
    get? (ofList fs) key = none ↔ key ∉ keys fs := by
  induction fs using List.reverseRecOn with
  | nil => simp [ofList, update, get?]
  | append_singleton fs f ih =>
    rw [ofList_concat, get?_set, keys_append, List.mem_append]
    by_cases hk : key = f.1
    · simp [hk]
    · simp [hk, ih]

theorem mem_keys_ofList {fs : List (κ × α)} {key : κ} : key ∈ keys (ofList fs) ↔ key ∈ keys fs := by
  rw [← not_iff_not, ← get?_eq_none_iff, get?_ofList_eq_none_iff]

theorem get?_ofList_of_last {fs gs : List (κ × α)} {key : κ} (v : α) (h : key ∉ keys gs) :
    get? (ofList (fs ++ (key, v) :: gs)) key = some v := by
  induction gs using List.reverseRecOn with
  | nil => simp [ofList_concat, get?_set]
  | append_singleton gs g ih =>
    rw [keys_append, List.mem_append, not_or] at h
    have hne : key ≠ g.1 := fun he => h.2 (by simp [he])
    rw [← List.cons_append, ← List.append_assoc, ofList_concat, get?_set, if_neg hne]
    exact ih h.1

theorem get?_filter (fs : Keyed κ α) (f : κ → Bool) (key : κ) :
    get? (fs.filter fun g => f g.1) key = if f key then get? fs key else none := by
  induction fs with
  | nil => simp [get?]
  | cons g fs ih =>
    by_cases hg : g.1 = key
    · subst hg
      cases hf : f g.1 with
      | true => simp [hf, get?]
      | false => simp [hf, ih]
    · cases hf : f g.1 with
      | true => simp [hf, get?, hg, ih]
      | false => simp [hf, get?, hg, ih]

omit [DecidableEq κ] in
theorem nodup_of_nodup_keys {fs : Keyed κ α} (h : (keys fs).Nodup) : fs.Nodup :=
  List.Nodup.of_map _ h

theorem perm_of_get?_eq {fs gs : Keyed κ α} (hf : (keys fs).Nodup) (hg : (keys gs).Nodup)
    (h : ∀ key, get? fs key = get? gs key) : fs.Perm gs := by
  rw [List.perm_ext_iff_of_nodup (nodup_of_nodup_keys hf) (nodup_of_nodup_keys hg)]
  rintro ⟨k, v⟩
  constructor
  · intro hm
    exact mem_of_get? ((h k).symm.trans (get?_of_mem hf hm))
  · intro hm
    exact mem_of_get? ((h k).trans (get?_of_mem hg hm))

theorem get?_update {fs gs : Keyed κ α} (h : (keys gs).Nodup) (key : κ) :
    get? (update fs gs) key = (get? gs key).or (get? fs key) := by
  induction gs generalizing fs with
  | nil => rfl
  | cons g gs ih =>
    obtain ⟨hg, hn⟩ := List.nodup_cons.mp h
    have hstep : update fs (g :: gs) = update (set fs g.1 g.2) gs := rfl
    rw [hstep, ih hn, get?_set, get?]
    by_cases hk : g.1 = key
    · rw [if_pos hk, if_pos hk.symm, get?_eq_none_iff.mpr (hk ▸ hg)]
      rfl
    · rw [if_neg hk, if_neg (Ne.symm hk)]

theorem get?_filter_value {fs : Keyed κ α} (h : (keys fs).Nodup) (f : α → Bool) (key : κ) :
    get? (fs.filter fun g => f g.2) key = (get? fs key).filter f := by
  induction fs with
  | nil => rfl
  | cons g fs ih =>
    obtain ⟨hg, hn⟩ := List.nodup_cons.mp h
    rw [List.filter_cons]
    by_cases hk : g.1 = key
    · have hnone : get? fs key = none := get?_eq_none_iff.mpr (hk ▸ hg)
      cases hf : f g.2 with
      | true => simp [get?, hk, hf, Option.filter]
      | false => simp [get?, hk, hf, ih hn, hnone, Option.filter]
    · cases hf : f g.2 with
      | true => simp [get?, hk, ih hn]
      | false => simp [get?, hk, ih hn]

def mapValues (f : α → α) (fs : Keyed κ α) : Keyed κ α := fs.map fun g => (g.1, f g.2)

omit [DecidableEq κ] in
@[simp] theorem keys_mapValues (f : α → α) (fs : Keyed κ α) : keys (mapValues f fs) = keys fs := by
  simp [keys, mapValues, Function.comp_def]

theorem get?_mapValues (f : α → α) (fs : Keyed κ α) (key : κ) :
    get? (mapValues f fs) key = (get? fs key).map f := by
  induction fs with
  | nil => rfl
  | cons g fs ih =>
    rw [mapValues, List.map_cons, get?, get?]
    split
    · rfl
    · exact ih

theorem set_mapValues (f : α → α) (fs : Keyed κ α) (key : κ) (v : α) :
    set (mapValues f fs) key (f v) = mapValues f (set fs key v) := by
  induction fs with
  | nil => rfl
  | cons g fs ih =>
    rw [mapValues, List.map_cons, set, set]
    split
    · rfl
    · exact congrArg ((g.1, f g.2) :: ·) ih

end Coursework.Keyed
