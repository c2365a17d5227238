import Coursework.Json.Reader

/-!
What the readers of values have in common: each leaves the end of the text that it is given, a
property of values that lists and objects take over from their parts holds of every value read, and
text is too deep only where many lists and objects open, and a number too long only where many
digits stand in a row.
-/

namespace Coursework.Json

variable {α β : Type} {s r : Text} {c : Char} {levels : Nat}

def Leaves (s : Text) (x : Option (α × Text)) : Prop := ∀ a r, x = some (a, r) → r <:+ s

theorem Leaves.some {a : α} (h : r <:+ s) : Leaves s (some (a, r)) := by
  intro b t hb
  obtain ⟨-, rfl⟩ := Prod.mk.inj (Option.some.inj hb)
  exact h

theorem Leaves.none : Leaves s (none : Option (α × Text)) := by
  intro a r h
  cases h

theorem Leaves.mono {x : Option (α × Text)} (h : Leaves r x) (hr : r <:+ s) : Leaves s x :=
  fun a t hx => (h a t hx).trans hr

theorem Leaves.bind {x : Option (α × Text)} {f : α × Text → Option (β × Text)} (hx : Leaves s x)
    (hf : ∀ a r, Leaves r (f (a, r))) : Leaves s (x.bind f) := by
  cases x with
  | none => exact .none
  | some y => exact (hf y.1 y.2).mono (hx y.1 y.2 rfl)

theorem suffix_skipSpace (s : Text) : skipSpace s <:+ s := List.dropWhile_suffix isSpace

theorem suffix_digits (s : Text) : (digits s).2 <:+ s := List.dropWhile_suffix Char.isDigit

theorem suffix_of_after? {w : Text} (h : Text.after? w s = some r) : r <:+ s :=
  ⟨w, (Text.eq_append_of_after? h).symm⟩

theorem leaves_unit? (s : Text) : Leaves s (unit? s) := by
  intro n r h
  rw [unit?.eq_def] at h
  split at h
  · simp only [Option.bind_eq_bind, Option.bind_eq_some_iff] at h
    obtain ⟨a, -, b, -, c, -, d, -, h⟩ := h
    obtain ⟨-, rfl⟩ := Prod.mk.inj (Option.some.inj h)
    exact ⟨[_, _, _, _], rfl⟩
  · cases h

theorem leaves_codePoint? (s : Text) : Leaves s (codePoint? s) := by
  refine (leaves_unit? s).bind fun high r => ?_
  simp only
  split
  · split
    · next t =>
      have ht : t <:+ '\\' :: 'u' :: t := ⟨['\\', 'u'], rfl⟩
      split
      · next low rest hlow =>
        split
        · exact .some ((leaves_unit? t low rest hlow).trans ht)
        · exact .some List.suffix_rfl
      · exact .some List.suffix_rfl
    · exact .some List.suffix_rfl
  · split
    · exact .some List.suffix_rfl
    · exact .some List.suffix_rfl

theorem leaves_escape? (s : Text) : Leaves s (escape? s) := by
  rw [escape?.eq_def]
  split
  case h_9 => exact (leaves_codePoint? _).mono (List.suffix_cons _ _)
  case h_10 => exact .none
  all_goals exact .some (List.suffix_cons _ _)

theorem leaves_stringBody? (fuel : Nat) (s : Text) : Leaves s (stringBody? fuel s) := by
  induction fuel generalizing s with
  | zero => exact .none
  | succ fuel ih =>
    cases s with
    | nil => exact .none
    | cons c s =>
      rw [stringBody?]
      have hs := List.suffix_cons c s
      split
      · exact .some hs
      · split
        · refine ((leaves_escape? s).mono hs).bind fun d r => ?_
          exact (ih r).bind fun w r => .some List.suffix_rfl
        · split
          · exact .none
          · exact ((ih s).mono hs).bind fun w r => .some List.suffix_rfl

theorem suffix_fraction (s : Text) : (fraction s).2 <:+ s := by
  rw [fraction.eq_def]
  split
  · split
    · exact List.suffix_rfl
    · exact (suffix_digits _).trans (List.suffix_cons _ _)
  · exact List.suffix_rfl

theorem suffix_power? (s : Text) : (power? s).2 <:+ s := by
  rw [power?.eq_def]
  split
  · exact List.suffix_rfl
  · next e r =>
    have hr : r <:+ e :: r := List.suffix_cons e r
    have hdigits : ∀ t, t <:+ r → (digits t).2 <:+ e :: r := fun t ht =>
      ((suffix_digits t).trans ht).trans hr
    split
    · simp only
      split
      · split
        · exact List.suffix_rfl
        · exact hdigits _ (List.suffix_cons _ _)
      · split
        · exact List.suffix_rfl
        · exact hdigits _ (List.suffix_cons _ _)
      · split
        · exact List.suffix_rfl
        · exact hdigits _ List.suffix_rfl
    · exact List.suffix_rfl

def openings (s : Text) : Nat := s.countP fun c => c == '[' || c == '{'

theorem openings_le_of_suffix (h : r <:+ s) : openings r ≤ openings s := h.sublist.countP_le

def Overlong (s : Text) : Prop :=
  ∃ ds, ds <:+: s ∧ (∀ c ∈ ds, c.isDigit = true) ∧ maxDigits < ds.length

theorem Overlong.of_suffix (h : Overlong r) (hr : r <:+ s) : Overlong s := by
  obtain ⟨ds, hds, hdigits, hlong⟩ := h
  exact ⟨ds, hds.trans hr.isInfix, hdigits, hlong⟩

/-- What a reader does inside of which so many levels may stand. What it gives has a property, it
leaves the end of the text, and it finds the text too deep or a number too long only where more
than that many levels open or more digits than may stand in a row. -/
structure Yields (P : α → Prop) (levels : Nat) (s : Text) (x : Except Fault (α × Text)) : Prop where
  result : ∀ a r, x = .ok (a, r) → P a ∧ r <:+ s
  deep : x = .error .tooDeep → levels < openings s
  long : ∀ n, x = .error (.tooLong n) → Overlong s

namespace Yields

variable {P : α → Prop} {Q : β → Prop}

theorem ok {a : α} (ha : P a) (h : r <:+ s) : Yields P levels s (.ok (a, r)) where
  result := by
    intro b t hb
    obtain ⟨rfl, rfl⟩ := Prod.mk.inj (Except.ok.inj hb)
    exact ⟨ha, h⟩
  deep := fun he => by cases he
  long := fun _ he => by cases he

theorem malformed : Yields P levels s (.error .malformed) where
  result := fun _ _ h => by cases h
  deep := fun h => by cases h
  long := fun _ h => by cases h

theorem tooLong {n : Nat} (h : Overlong s) : Yields P levels s (.error (.tooLong n)) where
  result := fun _ _ h => by cases h
  deep := fun h => by cases h
  long := fun _ _ => h

theorem of_forall {x : Except Fault (α × Text)} (h : Yields (fun _ => True) levels s x)
    (hP : ∀ a r, x = .ok (a, r) → P a) : Yields P levels s x where
  result := fun a r hx => ⟨hP a r hx, (h.result a r hx).2⟩
  deep := h.deep
  long := h.long

theorem mono {x : Except Fault (α × Text)} (h : Yields P levels r x) (hr : r <:+ s) :
    Yields P levels s x where
  result := fun a t hx => ⟨(h.result a t hx).1, (h.result a t hx).2.trans hr⟩
  deep := fun hx => Nat.lt_of_lt_of_le (h.deep hx) (openings_le_of_suffix hr)
  long := fun n hx => (h.long n hx).of_suffix hr

theorem bind {x : Except Fault (α × Text)} {f : α × Text → Except Fault (β × Text)}
    (hx : Yields P levels s x) (hf : ∀ a r, P a → Yields Q levels r (f (a, r))) :
    Yields Q levels s (x >>= f) := by
  cases x with
  | error e =>
    refine ⟨fun b r h => (by cases h), fun h => hx.deep ?_, fun n h => hx.long n ?_⟩
    · rw [Except.error.inj (show Except.error e = Except.error Fault.tooDeep from h)]
    · rw [Except.error.inj (show Except.error e = Except.error (Fault.tooLong n) from h)]
  | ok y =>
    obtain ⟨hy, hr⟩ := hx.result y.1 y.2 rfl
    exact (hf y.1 y.2 hy).mono hr

theorem found {x : Option (α × Text)} (hP : ∀ a r, x = some (a, r) → P a) (h : Leaves s x) :
    Yields P levels s (Json.found x) := by
  cases x with
  | none => exact .malformed
  | some y => exact .ok (hP y.1 y.2 rfl) (h y.1 y.2 rfl)

theorem deeper {x : Except Fault (α × Text)} (h : Yields P levels r x) (hr : r <:+ s)
    (hc : (c == '[' || c == '{') = true) : Yields P (levels + 1) (c :: s) x where
  result := (h.mono (hr.trans (List.suffix_cons c s))).result
  deep := by
    intro hx
    have hlt := Nat.lt_of_lt_of_le (h.deep hx) (openings_le_of_suffix hr)
    have hcount : openings (c :: s) = openings s + 1 := List.countP_cons_of_pos hc
    omega
  long := (h.mono (hr.trans (List.suffix_cons c s))).long

theorem tooDeep (hc : (c == '[' || c == '{') = true) :
    Yields P 0 (c :: s) (.error .tooDeep) where
  result := fun _ _ h => by cases h
  deep := fun _ => by simp [openings, hc]
  long := fun _ h => by cases h

end Yields

theorem yields_readNumber (negative : Bool) (levels : Nat) (s : Text) :
    Yields (fun _ => True) levels s (readNumber negative s) := by
  have hrest : ∀ t, t <:+ s → (power? (fraction t).2).2 <:+ s := fun t ht =>
    ((suffix_power? _).trans (suffix_fraction t)).trans ht
  have hdigits : maxDigits < (digits s).1.length → Overlong s := fun hlong =>
    ⟨_, (List.takeWhile_prefix _).isInfix, List.all_eq_true.mp List.all_takeWhile, hlong⟩
  rw [readNumber.eq_def]
  simp only
  split
  · split
    · exact .malformed
    · split
      · split
        · exact .ok trivial (hrest _ (List.suffix_cons _ _))
        · next hlong => exact absurd (Nat.succ_le_succ (Nat.zero_le _)) hlong
      · exact .ok trivial (hrest _ (List.suffix_cons _ _))
  · split
    · exact .malformed
    · split
      · split
        · exact .ok trivial (hrest _ (suffix_digits _))
        · next hlong => exact .tooLong (hdigits (Nat.lt_of_not_le hlong))
      · exact .ok trivial (hrest _ (suffix_digits _))

theorem yields_readScalar (c : Char) (levels : Nat) (s : Text) :
    Yields (fun _ => True) levels (c :: s) (readScalar c s) := by
  have hs := List.suffix_cons c s
  rw [readScalar]
  split
  · have hstring : Yields (fun _ => True) levels s (found (string? s)) :=
      .found (fun _ _ _ => trivial) (leaves_stringBody? _ s)
    exact (hstring.mono hs).bind fun w r _ => .ok trivial List.suffix_rfl
  · split
    · split
      · next r hr => exact .ok trivial ((suffix_of_after? hr).trans hs)
      · exact ((yields_readNumber true levels s).mono hs).bind fun n r _ =>
          .ok trivial List.suffix_rfl
    · split
      case h_6 =>
        exact (yields_readNumber false levels (c :: s)).bind fun n r _ =>
          .ok trivial List.suffix_rfl
      all_goals exact .ok trivial (suffix_of_after? ‹_›)

variable {P : Json → Prop}

theorem suffix_of_skipSpace {c : Char} (h : skipSpace s = c :: r) : r <:+ s :=
  (List.suffix_cons _ _).trans (h ▸ suffix_skipSpace _)

structure Readers (P : Json → Prop) (fuel : Nat) : Prop where
  value : ∀ levels s, Yields P levels s (value fuel levels s)
  items : ∀ levels s, Yields (∀ x ∈ ·, P x) levels s (items fuel levels s)
  members : ∀ levels s, Yields (∀ f ∈ ·, P f.2) levels s (members fuel levels s)

namespace Readers

variable {fuel : Nat}

theorem zero : Readers P 0 where
  value levels s := by
    rw [Json.value]
    exact .malformed
  items levels s := by
    rw [Json.items]
    exact .malformed
  members levels s := by
    rw [Json.members]
    exact .malformed

theorem value_succ (h : Readers P fuel) (hscalar : ∀ c s j r, readScalar c s = .ok (j, r) → P j)
    (hlist : ∀ xs, (∀ x ∈ xs, P x) → P (.list xs))
    (hobject : ∀ fs : List (Text × Json), (∀ f ∈ fs, P f.2) → P (.object (Keyed.ofList fs)))
    (levels : Nat) (s : Text) : Yields P levels s (Json.value (fuel + 1) levels s) := by
  cases s with
  | nil =>
    rw [Json.value]
    · exact .malformed
    · intro hs
      cases hs
  | cons c s =>
    rw [Json.value.eq_def]
    simp only
    split
    · next hc =>
      have hopen : (c == '[' || c == '{') = true := by simp [hc]
      cases levels with
      | zero => exact .tooDeep hopen
      | succ levels =>
        simp only
        split
        · next t ht =>
          exact .ok (hlist [] (by simp)) ((suffix_of_skipSpace ht).trans (List.suffix_cons _ _))
        · refine Yields.deeper ?_ (suffix_skipSpace s) hopen
          exact (h.items _ _).bind fun xs r hxs => .ok (hlist xs hxs) List.suffix_rfl
    · split
      · next hc =>
        have hopen : (c == '[' || c == '{') = true := by simp [hc]
        cases levels with
        | zero => exact .tooDeep hopen
        | succ levels =>
          simp only
          split
          · next t ht =>
            exact .ok (hobject [] (by simp)) ((suffix_of_skipSpace ht).trans (List.suffix_cons _ _))
          · refine Yields.deeper ?_ (suffix_skipSpace s) hopen
            exact (h.members _ _).bind fun fs r hfs => .ok (hobject fs hfs) List.suffix_rfl
      · exact (yields_readScalar c _ s).of_forall (hscalar c s)

theorem items_succ (h : Readers P fuel) (levels : Nat) (s : Text) :
    Yields (∀ x ∈ ·, P x) levels s (Json.items (fuel + 1) levels s) := by
  rw [Json.items]
  refine (h.value _ _).bind fun x r hx => ?_
  simp only
  split
  · next t ht =>
    refine Yields.mono ?_ (suffix_of_skipSpace ht)
    refine ((h.items _ _).mono (suffix_skipSpace t)).bind fun xs r hxs => ?_
    exact .ok (List.forall_mem_cons.mpr ⟨hx, hxs⟩) List.suffix_rfl
  · next t ht => exact .ok (List.forall_mem_singleton.mpr hx) (suffix_of_skipSpace ht)
  · exact .malformed

theorem members_succ (h : Readers P fuel) (levels : Nat) (s : Text) :
    Yields (∀ f ∈ ·, P f.2) levels s (Json.members (fuel + 1) levels s) := by
  rw [Json.members.eq_def]
  simp only
  split
  · next s =>
    refine Yields.mono ?_ (List.suffix_cons _ s)
    refine Yields.bind (P := fun _ => True)
      (.found (fun _ _ _ => trivial) (leaves_stringBody? _ s)) fun k r _ => ?_
    simp only
    split
    · next t ht =>
      refine Yields.mono ?_ (suffix_of_skipSpace ht)
      refine ((h.value _ _).mono (suffix_skipSpace t)).bind fun v r hv => ?_
      simp only
      split
      · next u hu =>
        refine Yields.mono ?_ (suffix_of_skipSpace hu)
        refine ((h.members _ _).mono (suffix_skipSpace u)).bind fun fs r hfs => ?_
        exact .ok (List.forall_mem_cons.mpr ⟨hv, hfs⟩) List.suffix_rfl
      · next u hu => exact .ok (List.forall_mem_singleton.mpr hv) (suffix_of_skipSpace hu)
      · exact .malformed
    · exact .malformed
  · exact .malformed

end Readers

theorem readers (hscalar : ∀ c s j r, readScalar c s = .ok (j, r) → P j)
    (hlist : ∀ xs, (∀ x ∈ xs, P x) → P (.list xs))
    (hobject : ∀ fs : List (Text × Json), (∀ f ∈ fs, P f.2) → P (.object (Keyed.ofList fs)))
    (fuel : Nat) : Readers P fuel := by
  induction fuel with
  | zero => exact .zero
  | succ fuel ih => exact ⟨ih.value_succ hscalar hlist hobject, ih.items_succ, ih.members_succ⟩

theorem read_cases (hscalar : ∀ c s j r, readScalar c s = .ok (j, r) → P j)
    (hlist : ∀ xs, (∀ x ∈ xs, P x) → P (.list xs))
    (hobject : ∀ fs : List (Text × Json), (∀ f ∈ fs, P f.2) → P (.object (Keyed.ofList fs)))
    (s : Text) :
    (∀ j, read s = .ok j → P j) ∧ (read s = .error .tooDeep → maxDepth < openings s) ∧
      ∀ n, read s = .error (.tooLong n) → Overlong s := by
  have hvalue := ((readers hscalar hlist hobject (2 * s.length + 2)).value maxDepth
    (skipSpace s)).mono (suffix_skipSpace s)
  rw [read]
  cases hv : value (2 * s.length + 2) maxDepth (skipSpace s) with
  | error e =>
    refine ⟨fun j h => (by cases h), fun h => hvalue.deep ?_, fun n h => hvalue.long n ?_⟩
    · rw [hv, Except.error.inj (show Except.error e = Except.error Fault.tooDeep from h)]
    · rw [hv, Except.error.inj (show Except.error e = Except.error (Fault.tooLong n) from h)]
  | ok y =>
    simp only [bind, Except.bind]
    split
    · refine ⟨fun j h => ?_, fun h => (by cases h), fun n h => (by cases h)⟩
      obtain rfl := Except.ok.inj h
      exact (hvalue.result _ _ hv).1
    · exact ⟨fun j h => (by cases h), fun h => (by cases h), fun n h => (by cases h)⟩

theorem read_faults (s : Text) : (read s = .error .tooDeep → maxDepth < openings s) ∧
    ∀ n, read s = .error (.tooLong n) → Overlong s :=
  (read_cases (P := fun _ => True) (fun _ _ _ _ _ => trivial) (fun _ _ => trivial)
    (fun _ _ => trivial) s).2

end Coursework.Json
