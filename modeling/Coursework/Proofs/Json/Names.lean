import Coursework.Proofs.Json.Reading
import Coursework.Proofs.Keyed

namespace Coursework.Json

inductive Distinct : Json → Prop
  | null : Distinct .null
  | bool (b : Bool) : Distinct (.bool b)
  | number (n : Number) : Distinct (.number n)
  | text (s : Text) : Distinct (.text s)
  | list {xs : List Json} (h : ∀ x ∈ xs, Distinct x) : Distinct (.list xs)
  | object {fs : Fields Json} (hn : (Keyed.keys fs).Nodup) (h : ∀ f ∈ fs, Distinct f.2) :
    Distinct (.object fs)

variable {fs : Fields Json} {j : Json} {s rest : Text} {c : Char} {key : Text}

theorem Distinct.nodup (h : (Json.object fs).Distinct) : (Keyed.keys fs).Nodup := by
  cases h with
  | object hn _ => exact hn

theorem Distinct.get? (h : (Json.object fs).Distinct) (hg : Keyed.get? fs key = some j) :
    j.Distinct := by
  cases h with
  | object _ hall => exact hall _ (Keyed.mem_of_get? hg)

theorem Distinct.ofList {fs : List (Text × Json)} (h : ∀ f ∈ fs, f.2.Distinct) :
    (Json.object (Keyed.ofList fs)).Distinct :=
  .object (Keyed.nodup_keys_ofList fs) fun f hf => h f (Keyed.mem_of_mem_ofList hf)

theorem distinct_of_readScalar (h : readScalar c s = .ok (j, rest)) : j.Distinct := by
  have hbind : ∀ {α : Type} {x : Except Fault (α × Text)} {f : α → Json},
      (∀ a, (f a).Distinct) →
      (x >>= fun y => pure (f y.1, y.2)) = .ok (j, rest) → j.Distinct := fun {_ x f} hf hx => by
    cases x with
    | error e => cases hx
    | ok y =>
      rw [← (Prod.mk.inj (Except.ok.inj hx)).1]
      exact hf y.1
  have hok : ∀ {k : Json} {r : Text}, k.Distinct → Except.ok (k, r) = Except.ok (ε := Fault) (j, rest) →
      j.Distinct := fun hk hx => (Prod.mk.inj (Except.ok.inj hx)).1 ▸ hk
  rw [readScalar] at h
  split at h
  · exact hbind .text h
  · split at h
    · split at h
      · exact hok (.number _) h
      · exact hbind .number h
    · split at h
      · exact hok .null h
      · exact hok (.bool true) h
      · exact hok (.bool false) h
      · exact hok (.number _) h
      · exact hok (.number _) h
      · exact hbind .number h

theorem distinct_of_read (h : read s = .ok j) : j.Distinct :=
  (read_cases (fun _ _ _ _ => distinct_of_readScalar) (fun _ => .list) (fun _ => .ofList) s).1 j h

end Coursework.Json
