import Coursework.Proofs.Directive.Grammar
import Coursework.Proofs.Directive.Hidden
import Coursework.Proofs.Text.Trimming

namespace Coursework

namespace Text

theorem append_cons_inj {a b x y : Text} {c d : Char} (ha : d ∉ a) (hb : c ∉ b)
    (h : a ++ c :: x = b ++ d :: y) : a = b ∧ c = d := by
  rcases List.append_eq_append_iff.mp h with ⟨t, rfl, ht⟩ | ⟨t, rfl, ht⟩
  · cases t with
    | nil => exact ⟨(List.append_nil a).symm, (List.cons.inj ht).1⟩
    | cons e t =>
      obtain ⟨rfl, -⟩ := List.cons.inj ht
      simp at hb
  · cases t with
    | nil => exact ⟨List.append_nil b, (List.cons.inj ht).1.symm⟩
    | cons e t =>
      obtain ⟨rfl, -⟩ := List.cons.inj ht
      simp at ha

end Text

namespace Roots

def IsName (w : Text) : Prop := ∀ c ∈ w, c ≠ '/' ∧ c ≠ ':' ∧ Text.isBlank c = false

def reference (name : Text) : Text := "res://".toList ++ name ++ ['/']

variable {s p v r : Text}

theorem reference_eq (s : Text) :
    reference s = ['r', 'e', 's'] ++ ':' :: (['/', '/'] ++ (s ++ ['/'])) := rfl

theorem isBlank_of_mem_reference (h : IsName s) : ∀ c ∈ reference s, Text.isBlank c = false := by
  have hfront : ∀ c ∈ ['r', 'e', 's', ':', '/', '/'], Text.isBlank c = false := by
    simp [Text.isBlank]
  intro c hc
  rcases List.mem_append.mp hc with hc | hc
  · rcases List.mem_append.mp hc with hc | hc
    · exact hfront c hc
    · exact (h c hc).2.2
  · obtain rfl := List.mem_singleton.mp hc
    rfl

theorem suffix_reference (h : IsName s) (hv : v <:+ reference s) (hne : v ≠ []) :
    v = reference s ∨ (∃ c t, v = c :: t ∧ c ≠ 'r') ∨ ∃ w, v = w ++ ['/'] ∧ ':' ∉ w := by
  have hrest : ∀ c ∈ ['e', 's', ':', '/', '/'], c ≠ 'r' := by simp
  rcases List.suffix_cons_iff.mp hv with hv | ⟨u, hu⟩
  · exact .inl hv
  · have hcut : u ++ v = ['e', 's', ':', '/', '/'] ++ (s ++ ['/']) := hu
    rcases List.append_eq_append_iff.mp hcut with ⟨t, ht, rfl⟩ | ⟨t, -, ht⟩
    · cases t with
      | nil => exact .inr (.inr ⟨s, rfl, fun hc => (h _ hc).2.1 rfl⟩)
      | cons c t =>
        have hc : c ∈ ['e', 's', ':', '/', '/'] := by
          rw [ht]
          exact List.mem_append_right u List.mem_cons_self
        exact .inr (.inl ⟨c, _, rfl, hrest c hc⟩)
    · rcases List.suffix_concat_iff.mp ⟨t, ht.symm⟩ with rfl | ⟨w, rfl, hw⟩
      · exact absurd rfl hne
      · exact .inr (.inr ⟨w, rfl, fun hc => (h _ (hw.subset hc)).2.1 rfl⟩)

theorem not_isPrefix_of_head {c : Char} {t : Text} (hc : c ≠ 'r') :
    ¬ reference s <+: c :: t ∧ ¬ c :: t <+: reference s ++ r :=
  ⟨fun h => hc (List.cons_prefix_cons.mp h).1.symm, fun h => hc (List.cons_prefix_cons.mp h).1⟩

theorem not_isPrefix_of_slash {w : Text} (hw : ':' ∉ w) :
    ¬ reference s <+: w ++ ['/'] ++ r ∧ ¬ w ++ ['/'] <+: reference s ++ r := by
  have hne : ∀ x y : Text, ['r', 'e', 's'] ++ ':' :: x ≠ w ++ '/' :: y := fun x y he =>
    absurd (Text.append_cons_inj (by decide) hw he).2 (by decide)
  rw [reference_eq]
  constructor
  · rintro ⟨z, hz⟩
    rw [List.append_assoc, List.append_assoc] at hz
    exact hne _ _ hz
  · rintro ⟨z, hz⟩
    rw [List.append_assoc, List.append_assoc] at hz
    exact hne _ _ hz.symm

theorem eq_of_isPrefix_reference (hs : IsName s) (hp : IsName p)
    (h : reference s <+: reference p ++ r) : s = p := by
  obtain ⟨z, hz⟩ := h
  have happend : ∀ w x : Text, reference w ++ x = ['r', 'e', 's', ':', '/', '/'] ++ (w ++ '/' :: x) :=
    fun w x => congrArg (['r', 'e', 's', ':', '/', '/'] ++ ·) (List.append_assoc w ['/'] x)
  rw [happend, happend, List.append_cancel_left_eq] at hz
  exact (Text.append_cons_inj (fun hc => (hs _ hc).1 rfl) (fun hc => (hp _ hc).1 rfl) hz).1

theorem apart_reference (hs : IsName s) (hp : IsName p) (hne : s ≠ p) :
    Text.Apart (reference s) (reference p) where
  starts v hv hvne r := by
    rcases suffix_reference hp hv hvne with rfl | ⟨c, t, rfl, hc⟩ | ⟨w, rfl, hw⟩
    · exact fun h => hne (eq_of_isPrefix_reference hs hp h)
    · exact (not_isPrefix_of_head (r := r) hc).1
    · exact (not_isPrefix_of_slash hw).1
  ends v hv hvne hvs r := by
    rcases suffix_reference hs hv hvne with rfl | ⟨c, t, rfl, hc⟩ | ⟨w, rfl, hw⟩
    · exact absurd rfl hvs
    · exact (not_isPrefix_of_head hc).2
    · exact (not_isPrefix_of_slash hw).2

/-- References without blanks, of which a replacement of one by the other leaves none. -/
structure Clean (r : Roots) : Prop where
  solutions_ne : r.solutionsReference ≠ []
  practices_ne : r.practicesReference ≠ []
  solutions : ∀ c ∈ r.solutionsReference, Text.isBlank c = false
  practices : ∀ c ∈ r.practicesReference, Text.isBlank c = false
  apart : Text.Apart r.solutionsReference r.practicesReference

theorem clean_ofNames (project : Path) (hs : IsName s) (hp : IsName p) (hne : s ≠ p) :
    (ofNames project s p "res://").Clean where
  solutions_ne := List.cons_ne_nil _ _
  practices_ne := List.cons_ne_nil _ _
  solutions := isBlank_of_mem_reference hs
  practices := isBlank_of_mem_reference hp
  apart := apart_reference hs hp hne

namespace Clean

variable {roots : Roots}

theorem lineFeed (h : roots.Clean) : '\n' ∉ roots.solutionsReference :=
  fun hc => absurd (h.solutions _ hc) (by decide)

theorem unbroken_redirect (h : roots.Clean) (hs : Text.Unbroken s) :
    Text.Unbroken (roots.redirect s) := by
  intro c hc
  rcases Text.mem_of_mem_replace hc with hc | hc
  · exact hs c hc
  · by_contra hb
    have hblank := Text.isBlank_of_isLineBreak (Bool.of_not_eq_false hb)
    rw [h.practices c hc] at hblank
    cases hblank

theorem redirect_concat (h : roots.Clean) (s : Text) :
    roots.redirect (s ++ ['\n']) = roots.redirect s ++ ['\n'] :=
  Text.replace_concat h.solutions_ne h.lineFeed _ s

theorem redirect_join (h : roots.Clean) (ls : List Text) :
    roots.redirect (Text.join ['\n'] ls) = Text.join ['\n'] (ls.map roots.redirect) :=
  Text.replace_join h.solutions_ne h.lineFeed _ ls

theorem trim_redirect (h : roots.Clean) (s : Text) :
    Text.trim (roots.redirect s) = roots.redirect (Text.trim s) :=
  Text.trim_replace h.solutions_ne h.practices_ne h.solutions h.practices s

theorem not_infix_redirect (h : roots.Clean) (s : Text) :
    ¬ roots.solutionsReference <:+: roots.redirect s :=
  h.apart.not_infix_replace h.solutions_ne s

theorem redirect_redirect (h : roots.Clean) (s : Text) :
    roots.redirect (roots.redirect s) = roots.redirect s :=
  Text.replace_of_not_infix _ (h.not_infix_redirect s)

end Clean

end Roots

namespace Directive

variable {m : Marks} {k : Char} {n : Int} {marker line shown s comment : Text}

theorem oneLine?_subset {s r : Text} (h : Text.oneLine? s = some r) : r ⊆ s := by
  fun_induction Text.oneLine? s generalizing r with
  | case1 =>
    obtain rfl := Option.some.inj h
    exact List.Subset.refl _
  | case2 =>
    obtain rfl := Option.some.inj h
    exact List.nil_subset _
  | case3 => cases h
  | case4 c s hs hc ih =>
    obtain ⟨t, ht, rfl⟩ := Option.map_eq_some_iff.mp h
    exact List.cons_subset_cons c (ih ht)

theorem commentAt_subset (h : commentAt marker s = some comment) : comment ⊆ s := by
  obtain ⟨r, hr, hone⟩ := Option.bind_eq_some_iff.mp h
  rw [Text.eq_append_of_after? hr]
  exact List.subset_append_of_subset_right _ (oneLine?_subset hone)

theorem commentAfterBlanks_subset (h : commentAfterBlanks marker s = some comment) :
    comment ⊆ s := by
  induction s with
  | nil => exact commentAt_subset h
  | cons c s ih =>
    rw [commentAfterBlanks_cons, Option.or_eq_some_iff] at h
    rcases h with h | ⟨-, h⟩
    · split at h
      · exact List.subset_cons_of_subset c (ih h)
      · cases h
    · exact commentAt_subset h

theorem splitCode_subset {p : Parts} (h : splitCode marker s = some p) : p.comment ⊆ s := by
  induction s generalizing p with
  | nil =>
    obtain ⟨a, ha, rfl⟩ := Option.map_eq_some_iff.mp h
    exact commentAfterBlanks_subset ha
  | cons c s ih =>
    rw [splitCode_cons] at h
    split at h
    · next a ha =>
      obtain rfl := Option.some.inj h
      exact commentAfterBlanks_subset ha
    · split at h
      · cases h
      · obtain ⟨q, hq, rfl⟩ := Option.map_eq_some_iff.mp h
        have hsub : q.comment ⊆ s := ih hq
        exact List.subset_cons_of_subset c hsub

theorem split_subset {p : Parts} (h : m.split line = some p) : p.comment ⊆ line := by
  unfold Marks.split at h
  split at h
  · cases h
  · next c s hbody =>
    split at h
    · obtain ⟨q, hq, rfl⟩ := Option.map_eq_some_iff.mp h
      have hsuf : c :: s <:+ line := hbody ▸ List.dropWhile_suffix isIndent
      exact fun d hd => hsuf.subset (List.mem_cons_of_mem c (splitCode_subset hq hd))
    · cases h

theorem unbroken_copies {u : Text} (hu : Text.Unbroken u) (n : Nat) :
    Text.Unbroken (Text.copies u n) := by
  induction n with
  | zero => exact Text.unbroken_nil
  | succ n ih => exact Text.unbroken_append.mpr ⟨hu, ih⟩

theorem dropSpace_subset (s : Text) : dropSpace s ⊆ s := by
  unfold dropSpace
  split
  · exact List.subset_cons_self _ _
  · exact List.Subset.refl s

theorem render_ofComment_eq (h : m.render line (m.ofComment n comment) = some shown) :
    ∃ i t, shown = Text.copies m.unit i ++ t ∧ t ⊆ comment := by
  unfold Marks.ofComment at h
  dsimp only at h
  split at h
  · cases h
  · split at h
    · exact ⟨_, _, (Option.some.inj h).symm, dropSpace_subset comment⟩
    · refine ⟨_, _, (Option.some.inj h).symm, fun c hc => ?_⟩
      have hrest := (List.dropWhile_suffix Text.isBlank).subset hc
      exact dropSpace_subset comment ((List.dropWhile_suffix m.isShift).subset hrest)

theorem unbroken_shown (hu : Text.Unbroken m.unit) (hl : Text.Unbroken line)
    (h : m.shown line = some shown) : Text.Unbroken shown := by
  unfold Marks.shown Marks.directiveAt at h
  split at h
  · next p hp =>
    obtain ⟨i, t, rfl, ht⟩ := render_ofComment_eq h
    exact Text.unbroken_append.mpr ⟨unbroken_copies hu i,
      hl.sub fun c hc => split_subset hp (ht hc)⟩
  · obtain rfl := Option.some.inj h
    exact hl

theorem shown_of_not_mem (hm : m.marker = [k]) (hk : k ∉ line) : m.shown line = some line := by
  have hbare : Bare k line :=
    .inr (.inr fun hc => hk ((List.dropWhile_suffix isIndent).subset hc))
  rw [Marks.shown, Marks.directiveAt, split_of_bare hm hbare]
  rfl

theorem filterMap_shown_of_not_mem (hm : m.marker = [k]) (hk : k ∉ s) :
    (Text.lines s).filterMap m.shown = Text.lines s := by
  have hall : ∀ l ∈ Text.lines s, m.shown l = some l := fun l hl =>
    shown_of_not_mem hm fun hkl => hk (Text.mem_of_mem_lines hl hkl)
  rw [List.filterMap_congr hall, List.filterMap_some]

end Directive

namespace Conversion

variable {c : Conversion} {project : Path} {solutions practices extension : Text}

theorem assemble_eq (h : c.roots.Clean) (ls : List Text) : c.assemble ls =
    Text.trim (Text.join ['\n'] (ls.map c.roots.redirect)) ++ ['\n'] := by
  rw [assemble, h.redirect_concat, ← h.trim_redirect, h.redirect_join]

structure Practice (c : Conversion) (s t : Text) : Prop where
  first : ∀ k ∈ t.head?, Text.isBlank k = false
  last : ∀ k ∈ t.getLast?, Text.isBlank k = false
  feedsOnly : Text.FeedsOnly t
  unreferenced : ¬ c.roots.solutionsReference <:+: t
  lines : ∃ ls, ls = ((Text.lines s).filterMap fun l =>
      (c.marks.directiveOf l none).bind (c.marks.render l)).map c.roots.redirect ∧
    (∀ l ∈ ls, Text.Unbroken l) ∧ t = Text.trim (Text.join ['\n'] ls)
  undirected : ∀ k, c.marks.marker = [k] → k ∉ s →
    t = Text.trim (Text.join ['\n'] ((Text.lines s).map c.roots.redirect))
  redirected : c.roots.redirect (t ++ ['\n']) = t ++ ['\n']

theorem practice_of_clean (h : c.roots.Clean) (hu : c.marks.unit ≠ [])
    (hunit : Text.Unbroken c.marks.unit) (s : Text) :
    c.Practice s (Text.trim (Text.join ['\n']
      (((Text.lines s).filterMap c.marks.shown).map c.roots.redirect))) := by
  have hshown : (fun l => (c.marks.directiveOf l none).bind (c.marks.render l)) = c.marks.shown := by
    funext l
    rw [Directive.directiveOf_none hu]
    rfl
  have hunbroken : ∀ l ∈ ((Text.lines s).filterMap c.marks.shown).map c.roots.redirect,
      Text.Unbroken l := by
    intro l hl
    obtain ⟨shown, hshown, rfl⟩ := List.mem_map.mp hl
    obtain ⟨line, hline, hl⟩ := List.mem_filterMap.mp hshown
    exact h.unbroken_redirect
      (Directive.unbroken_shown hunit (Text.unbroken_of_mem_lines hline) hl)
  constructor
  · exact fun k => Text.head?_trim
  · exact fun k => Text.getLast?_trim
  · exact fun k hk => Text.feedsOnly_join hunbroken k (Text.mem_of_mem_trim hk)
  · rw [← h.redirect_join, h.trim_redirect]
    exact h.not_infix_redirect _
  · exact ⟨_, by rw [hshown], hunbroken, rfl⟩
  · intro k hm hk
    rw [Directive.filterMap_shown_of_not_mem hm hk]
  · rw [h.redirect_concat, ← h.redirect_join, h.trim_redirect, h.redirect_redirect]

/-- A practice is a trimmed text whose lines are what the solution's lines leave, one by one, and
nothing in it refers to a solution. -/
theorem result_of_covers (hroots : c.roots = Roots.ofNames project solutions practices "res://")
    (hs : Roots.IsName solutions) (hp : Roots.IsName practices) (hne : solutions ≠ practices)
    (hu : c.marks.unit ≠ []) (hi : ∀ k ∈ c.marks.unit, Directive.isIndent k = true)
    (he : c.covers extension = true) (s : Text) :
    ∃ t, c.result extension s = some (t ++ ['\n']) ∧ c.Practice s t := by
  have hclean : c.roots.Clean := hroots ▸ Roots.clean_ofNames project hs hp hne
  have hunit : Text.Unbroken c.marks.unit := by
    intro k hk
    have hindent := hi k hk
    simp only [Directive.isIndent, Bool.or_eq_true, beq_iff_eq] at hindent
    rcases hindent with rfl | rfl <;> rfl
  refine ⟨_, ?_, practice_of_clean hclean hu hunit s⟩
  rw [result, if_pos he, practiceText, Directive.practiceLines_eq hu, Option.map_some,
    assemble_eq hclean]

def referring : Text := "a = b # load(\"res://s/a\")\n\tload(\"res://res://s/\")"

theorem result_of_covers_referring :
    exercise.roots = Roots.ofNames (Path.ofText "/w") "s" "p" "res://" ∧ Roots.IsName "s" ∧
    Roots.IsName "p" ∧ "s".toList ≠ "p".toList ∧ exercise.marks.unit ≠ [] ∧
    (∀ k ∈ exercise.marks.unit, Directive.isIndent k = true) ∧ exercise.covers ".gd" = true ∧
    ∃ t, exercise.result ".gd" referring = some (t ++ ['\n']) ∧ exercise.Practice referring t := by
  have hs : Roots.IsName "s" := by simp [Roots.IsName, Text.isBlank]
  have hp : Roots.IsName "p" := by simp [Roots.IsName, Text.isBlank]
  have hne : "s".toList ≠ "p".toList := by decide
  have hu : exercise.marks.unit ≠ [] := by decide
  have hi : ∀ k ∈ exercise.marks.unit, Directive.isIndent k = true := by
    simp [exercise, Directive.isIndent]
  have he : exercise.covers ".gd" = true := by decide
  exact ⟨rfl, hs, hp, hne, hu, hi, he, result_of_covers rfl hs hp hne hu hi he referring⟩

example : exercise.result ".gd" referring =
    some "load(\"res://p/a\")\n\tload(\"res://res://p/\")\n".toList := by
  decide

end Conversion

end Coursework
