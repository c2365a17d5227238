import Coursework.Proofs.Directive.Splitting
import Coursework.Proofs.Text.Replacing

namespace Coursework

namespace Text

variable {u s : Text}

theorem leadingCopiesFrom_length (u v s : Text) :
    leadingCopiesFrom u v.length (v ++ s) = leadingCopies u s := by
  induction v with
  | nil => rfl
  | cons c v ih => exact ih

theorem leadingCopies_append (hu : u ≠ []) (s : Text) :
    leadingCopies u (u ++ s) = leadingCopies u s + 1 := by
  obtain ⟨c, v, rfl⟩ := List.exists_cons_of_ne_nil hu
  have hs : startsWith (c :: (v ++ s)) (c :: v) = true := startsWith_iff.mpr ⟨s, rfl⟩
  rw [List.cons_append, leadingCopies, leadingCopiesFrom, if_pos hs]
  exact congrArg (· + 1) (leadingCopiesFrom_length _ v s)

theorem leadingCopies_eq_zero (h : ¬ u <+: s) : leadingCopies u s = 0 := by
  cases s with
  | nil => rfl
  | cons c s =>
    rw [← startsWith_iff] at h
    rw [leadingCopies, leadingCopiesFrom, if_neg h]

theorem copies_isPrefix_iff (hu : u ≠ []) {k : Nat} : copies u k <+: s ↔ k ≤ leadingCopies u s := by
  induction k generalizing s with
  | zero => simp [copies]
  | succ k ih =>
    rw [copies]
    by_cases hs : u <+: s
    · obtain ⟨r, rfl⟩ := hs
      rw [List.prefix_append_right_inj, ih, leadingCopies_append hu, Nat.succ_le_succ_iff]
    · rw [leadingCopies_eq_zero hs]
      constructor
      · exact fun h => absurd ((List.prefix_append u _).trans h) hs
      · exact fun h => absurd h (Nat.not_succ_le_zero k)

end Text

namespace Directive

variable {m : Marks} {k : Char} {u line comment code : Text}

def Bare (k : Char) (line : Text) : Prop :=
  line.dropWhile isIndent = [] ∨
    (∃ c s, line.dropWhile isIndent = c :: s ∧ (c = k ∨ Text.isBlank c = true)) ∨
    k ∉ line.dropWhile isIndent

theorem split_of_bare (hm : m.marker = [k]) (h : Bare k line) : m.split line = none := by
  rcases h with hnil | ⟨c, s, hbody, hc⟩ | hk
  · rw [Marks.split, hnil]
  · have hstart : startsCode [k] c = false := by
      rcases hc with rfl | hc
      · simp [startsCode]
      · simp [startsCode, hc]
    simp [Marks.split, hbody, hm, hstart]
  · cases hbody : line.dropWhile isIndent with
    | nil => rw [Marks.split, hbody]
    | cons c s =>
      rw [hbody, List.mem_cons, not_or] at hk
      simp [Marks.split, hbody, hm, splitCode_of_not_mem hk.2]

theorem exists_of_not_bare (h : ¬ Bare k line) : ∃ code comment,
    line.dropWhile isIndent = code ++ k :: comment ∧ k ∉ code := by
  rw [Bare, not_or, not_or, not_not] at h
  exact List.eq_append_cons_of_mem h.2.2

theorem split_of_not_bare (hm : m.marker = [k]) (hk : Text.isBlank k = false) (hn : '\n' ∉ line)
    (h : ¬ Bare k line) (hbody : line.dropWhile isIndent = code ++ k :: comment)
    (hcode : k ∉ code) : m.split line = some ⟨Text.trimRight code, comment⟩ := by
  have hfeed : '\n' ∉ code ++ k :: comment := by
    rw [← hbody]
    exact fun hc => hn ((List.dropWhile_suffix _).subset hc)
  rw [Bare, not_or, not_or] at h
  cases code with
  | nil => exact absurd ⟨k, comment, hbody, .inl rfl⟩ h.2.1
  | cons c code =>
    have hblank : Text.isBlank c = false := by
      by_contra hc
      exact h.2.1 ⟨c, code ++ k :: comment, hbody, .inr (Bool.of_not_eq_false hc)⟩
    rw [List.mem_cons, not_or] at hcode
    rw [List.cons_append, List.mem_cons, not_or] at hfeed
    have hstart : startsCode [k] c = true := by
      simp [startsCode, hblank, Ne.symm hcode.1]
    have hright : Text.trimRight (c :: code) = c :: Text.trimRight code := by
      apply Text.trimRight_cons
      rw [Text.blank_cons, hblank, Bool.false_and]
    simp only [Marks.split, hbody, List.cons_append, hm, hstart, if_true,
      splitCode_eq hk hcode.2 hfeed.2, Option.map_some, hright]

def shifts (c : Char) : Bool := c == '>' || c == '<'

theorem shifts_iff {c : Char} : shifts c = true ↔ c = '>' ∨ c = '<' := by
  simp only [shifts, Bool.or_eq_true, beq_iff_eq]

theorem totalShift_eq (hi : m.indentSymbol = ['>']) {run : Text}
    (hrun : ∀ c ∈ run, shifts c = true) :
    m.totalShift run = (run.count '>' : Int) - run.count '<' := by
  have hright : m.shiftBy '>' = 1 := if_pos hi
  have hleft : m.shiftBy '<' = -1 := if_neg (by simp [hi])
  have hfold : ∀ n : Int, run.foldl (fun n c => n + m.shiftBy c) n =
      n + ((run.count '>' : Int) - run.count '<') := by
    induction run with
    | nil => simp
    | cons c run ih =>
      intro n
      rw [List.forall_mem_cons] at hrun
      rw [List.foldl_cons, ih hrun.2]
      rcases shifts_iff.mp hrun.1 with rfl | rfl
      · rw [hright, List.count_cons_self, List.count_cons_of_ne (by decide), Int.natCast_succ]
        omega
      · rw [hleft, List.count_cons_self, List.count_cons_of_ne (by decide), Int.natCast_succ]
        omega
  rw [Marks.totalShift, hfold, Int.zero_add]

theorem isShift_eq (u : Text) : Marks.isShift { unit := u } = shifts := by
  funext c
  simp only [Marks.isShift, shifts, List.contains_cons, List.contains_nil, Bool.or_false]

structure Tells (n : Int) (a : Text) (d : Directive) : Prop where
  delete : d = .delete ↔ Text.blank a = true
  replace : ∀ i t, d = .replace i t ↔
    Text.blank a = false ∧ (∀ c ∈ a.head?, c ≠ '>' ∧ c ≠ '<') ∧ i = n ∧ t = a
  shift : ∀ i t, d = .shift i t ↔ Text.blank a = false ∧ (∃ c ∈ a.head?, c = '>' ∨ c = '<') ∧
    i = max 0 (n + ((a.takeWhile shifts).count '>' : Int) - (a.takeWhile shifts).count '<') ∧
    t = Text.trimLeft (a.dropWhile shifts)
  unkept : d ≠ .keep

theorem tells_ofComment (u comment : Text) (n : Int) :
    Tells n (dropSpace comment) (Marks.ofComment { unit := u } n comment) := by
  rw [Marks.ofComment, isShift_eq]
  generalize dropSpace comment = a
  cases hb : Text.blank a with
  | true => constructor <;> simp [hb]
  | false =>
    cases a with
    | nil => cases hb
    | cons c s =>
      by_cases hc : shifts c = true
      · have hne : (c :: s).takeWhile shifts ≠ [] := by simp [hc]
        have htotal : Marks.totalShift { unit := u } ((c :: s).takeWhile shifts) = _ :=
          totalShift_eq rfl fun d hd => List.mem_takeWhile_imp hd
        have hhead := shifts_iff.mp hc
        simp only [Bool.false_eq_true, if_false, if_neg hne, htotal]
        constructor
        · simp [hb]
        · rcases hhead with rfl | rfl <;> simp
        · intro i t
          simp only [shift.injEq, hb, true_and, List.head?_cons, Option.mem_some_iff,
            exists_eq_left', hhead]
          have hmax : ∀ x y : Int, max (n + (x - y)) 0 = max 0 (n + x - y) := by omega
          rw [hmax, eq_comm, @eq_comm _ t]
        · simp
      · have hnil : (c :: s).takeWhile shifts = [] := by simp [hc]
        have hhead := hc
        rw [shifts_iff, not_or] at hhead
        simp only [Bool.false_eq_true, if_false, hnil, if_true]
        constructor
        · simp [hb]
        · intro i t
          simp only [replace.injEq, hb, true_and, List.head?_cons, Option.mem_some_iff,
            forall_eq', ne_eq, hhead, not_false_eq_true, and_self]
          rw [eq_comm, @eq_comm _ t]
        · simp [hhead]
        · simp

structure Reading (u line : Text) (indent : Option Int) (d : Directive) (r : Record) : Prop where
  copies : Text.copies u r.indent <+: line
  most : ∀ j, Text.copies u j <+: line → j ≤ r.indent
  keep : d = .keep ↔ Bare '#' line
  uncommented : r.comment = none ↔ Bare '#' line
  kept : Bare '#' line → r.code = Text.trim line ∧
    Marks.render { unit := u } line d = some line
  tells : ¬ Bare '#' line → ∃ code comment, line.dropWhile isIndent = code ++ '#' :: comment ∧
    '#' ∉ code ∧ r.code = Text.trimRight code ∧ r.comment = some comment ∧
    Tells (indent.getD r.indent) (dropSpace comment) d
  removed : d = .delete → Marks.render { unit := u } line d = none
  written : ∀ i t, d = .replace i t ∨ d = .shift i t → 0 ≤ i ∧
    Marks.render { unit := u } line d = some (Text.copies u i.toNat ++ t)

variable {indent : Option Int}

theorem reading_of_bare (hu : u ≠ []) (h : Bare '#' line) (indent : Option Int) :
    Reading u line indent .keep ⟨Text.leadingCopies u line, Text.trim line, none⟩ where
  copies := (Text.copies_isPrefix_iff hu).mpr (Nat.le_refl _)
  most j := (Text.copies_isPrefix_iff hu).mp
  keep := iff_of_true rfl h
  uncommented := iff_of_true rfl h
  kept _ := ⟨rfl, rfl⟩
  tells hbare := absurd h hbare
  removed hd := by cases hd
  written i t hd := by rcases hd with hd | hd <;> cases hd

theorem reading_of_comment (hu : u ≠ []) (h : ¬ Bare '#' line)
    (hbody : line.dropWhile isIndent = code ++ '#' :: comment) (hcode : '#' ∉ code)
    (hn : 0 ≤ indent.getD (Text.leadingCopies u line)) :
    Reading u line indent
      (Marks.ofComment { unit := u } (indent.getD (Text.leadingCopies u line)) comment)
      ⟨Text.leadingCopies u line, Text.trimRight code, some comment⟩ := by
  have htells := tells_ofComment u comment (indent.getD (Text.leadingCopies u line))
  constructor
  · exact (Text.copies_isPrefix_iff hu).mpr (Nat.le_refl _)
  · exact fun j => (Text.copies_isPrefix_iff hu).mp
  · exact iff_of_false htells.unkept h
  · exact iff_of_false (Option.some_ne_none comment) h
  · exact fun hbare => absurd hbare h
  · exact fun _ => ⟨code, comment, hbody, hcode, rfl, rfl, htells⟩
  · intro hd
    rw [hd]
    rfl
  · intro i t hd
    rcases hd with hd | hd
    · obtain ⟨-, -, rfl, -⟩ := (htells.replace i t).mp hd
      exact ⟨hn, by rw [hd]; rfl⟩
    · obtain ⟨-, -, rfl, -⟩ := (htells.shift i t).mp hd
      exact ⟨Int.le_max_left _ _, by rw [hd]; rfl⟩

/-- The directive of a line, and its parts, are those of the grammar. -/
theorem directive_grammar (hu : u ≠ []) (hn : '\n' ∉ line) (hindent : ∀ n ∈ indent, 0 ≤ n) :
    ∃ d r, Marks.directiveOf { unit := u } line indent = some d ∧
      Marks.recordOf { unit := u } line = some r ∧ Reading u line indent d r := by
  have hcount : Marks.indentOf { unit := u } line = some (Text.leadingCopies u line) := if_neg hu
  have hdirective : Marks.directiveOf { unit := u } line indent =
      some (Marks.directiveAt { unit := u } (indent.getD (Text.leadingCopies u line)) line) := by
    cases indent with
    | some n => rfl
    | none =>
      rw [Marks.directiveOf, hcount]
      rfl
  -- a line that is bare has no directive; else its first marker behind code starts one
  by_cases hbare : Bare '#' line
  · have hsplit : Marks.split { unit := u } line = none := split_of_bare rfl hbare
    refine ⟨.keep, _, ?_, ?_, reading_of_bare hu hbare indent⟩
    · rw [hdirective, Marks.directiveAt, hsplit]
    · rw [Marks.recordOf, hcount, hsplit]
      rfl
  · obtain ⟨code, comment, hbody, hcode⟩ := exists_of_not_bare hbare
    have hsplit : Marks.split { unit := u } line = some ⟨Text.trimRight code, comment⟩ :=
      split_of_not_bare rfl rfl hn hbare hbody hcode
    have hnonneg : 0 ≤ indent.getD (Text.leadingCopies u line) := by
      cases indent with
      | some n => exact hindent n rfl
      | none => exact Int.natCast_nonneg _
    refine ⟨_, _, ?_, ?_, reading_of_comment hu hbare hbody hcode hnonneg⟩
    · rw [hdirective, Marks.directiveAt, hsplit]
    · rw [Marks.recordOf, hcount, hsplit]
      rfl

theorem directive_grammar_shift : ['\t'] ≠ ([] : Text) ∧ '\n' ∉ "\tx = 1 #>> y = 2".toList ∧
    (∀ n ∈ (some 1 : Option Int), 0 ≤ n) ∧
    ∃ d r, Marks.directiveOf { unit := ['\t'] } "\tx = 1 #>> y = 2" (some 1) = some d ∧
      Marks.recordOf { unit := ['\t'] } "\tx = 1 #>> y = 2" = some r ∧
      Reading ['\t'] "\tx = 1 #>> y = 2" (some 1) d r := by
  have hu : ['\t'] ≠ ([] : Text) := by decide
  have hn : '\n' ∉ "\tx = 1 #>> y = 2".toList := by decide
  have hindent : ∀ n ∈ (some 1 : Option Int), 0 ≤ n := by decide
  exact ⟨hu, hn, hindent, directive_grammar hu hn hindent⟩

end Directive

end Coursework
