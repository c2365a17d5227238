import Coursework.Text.Basic

namespace Coursework

abbrev Keyed (κ α : Type) := List (κ × α)

abbrev Fields (α : Type) := Keyed Text α

namespace Keyed

variable {κ α : Type} [DecidableEq κ]

def get? : Keyed κ α → κ → Option α
  | [], _ => none
  | (k, v) :: fs, key => if k = key then some v else get? fs key

def has (fs : Keyed κ α) (key : κ) : Bool := (get? fs key).isSome

def set : Keyed κ α → κ → α → Keyed κ α
  | [], key, value => [(key, value)]
  | (k, v) :: fs, key, value =>
    if k = key then (k, value) :: fs else (k, v) :: set fs key value

def erase : Keyed κ α → κ → Keyed κ α
  | [], _ => []
  | (k, v) :: fs, key => if k = key then fs else (k, v) :: erase fs key

def keys (fs : Keyed κ α) : List κ := fs.map Prod.fst

def update (fs gs : Keyed κ α) : Keyed κ α := gs.foldl (fun acc g => set acc g.1 g.2) fs

def ofList (fs : List (κ × α)) : Keyed κ α := update [] fs

theorem get?_set (fs : Keyed κ α) (key k : κ) (value : α) :
    get? (set fs key value) k = if k = key then some value else get? fs k := by
  induction fs with
  | nil => simp [set, get?, eq_comm]
  | cons f fs ih =>
    obtain ⟨a, v⟩ := f
    by_cases h : a = key
    · subst h
      by_cases hk : a = k
      · simp [set, get?, hk]
      · simp [set, get?, hk, Ne.symm hk]
    · by_cases hk : a = k
      · subst hk; simp [set, get?, h]
      · simp [set, get?, h, hk, ih]

theorem keys_set (fs : Keyed κ α) (key : κ) (value : α) :
    keys (set fs key value) = if key ∈ keys fs then keys fs else keys fs ++ [key] := by
  induction fs with
  | nil => simp [set, keys]
  | cons f fs ih =>
    obtain ⟨a, v⟩ := f
    by_cases h : a = key
    · simp [set, keys, h]
    · simp only [keys] at ih
      by_cases hk : key ∈ fs.map Prod.fst <;> simp [set, keys, h, hk, ih, Ne.symm h]

end Keyed

end Coursework
