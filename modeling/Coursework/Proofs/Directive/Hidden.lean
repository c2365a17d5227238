import Mathlib.Data.List.Forall2
import Coursework.Directive.Content
import Coursework.Proofs.Directive.Splitting

namespace Coursework

namespace Directive

variable {m : Marks} {k : Char} {line line' : Text} {ls ls' : List Text}

def Marks.shown (m : Marks) (line : Text) : Option Text :=
  m.render line (m.directiveAt (Text.leadingCopies m.unit line) line)

theorem directiveOf_none (hu : m.unit ≠ []) (line : Text) : m.directiveOf line none =
    some (m.directiveAt (Text.leadingCopies m.unit line) line) := by
  simp [Marks.directiveOf, Marks.indentOf, hu]

theorem practiceLines_eq (hu : m.unit ≠ []) (ls : List Text) :
    m.practiceLines ls = some (ls.filterMap m.shown) := by
  induction ls with
  | nil => rfl
  | cons line ls ih =>
    rw [Marks.practiceLines, directiveOf_none hu, ih, List.filterMap_cons]
    simp only [bind, Option.bind, Option.some.injEq]
    rw [← Marks.shown]
    cases m.shown line <;> rfl

/-- Lines that may differ in code that a directive hides: directives with one comment at one
indentation, or directives that take their lines away. -/
inductive Alike (m : Marks) (k : Char) : Text → Text → Prop
  | same (line : Text) : Alike m k line line
  | replaced {line line' comment : Text} (h : HasComment k line comment)
      (h' : HasComment k line' comment) (hi : m.indentOf line = m.indentOf line') :
      Alike m k line line'
  | deleted {line line' comment comment' : Text} (h : HasComment k line comment)
      (h' : HasComment k line' comment') (hc : Text.blank comment = true)
      (hc' : Text.blank comment' = true) : Alike m k line line'

theorem shown_of_hasComment {comment : Text} (hm : m.marker = [k]) (hk : Text.isBlank k = false)
    (hn : '\n' ∉ line) (h : HasComment k line comment) : m.shown line =
      m.render line (m.ofComment (Text.leadingCopies m.unit line) comment) := by
  obtain ⟨code, hs⟩ := split_of_hasComment hm hk hn h
  rw [Marks.shown, Marks.directiveAt, hs]

theorem blank_dropSpace {s : Text} (h : Text.blank s = true) : Text.blank (dropSpace s) = true := by
  unfold dropSpace
  split
  · rw [Text.blank_cons, Bool.and_eq_true] at h
    exact h.2
  · exact h

theorem shown_eq_none {comment : Text} (hm : m.marker = [k]) (hk : Text.isBlank k = false)
    (hn : '\n' ∉ line) (h : HasComment k line comment) (hc : Text.blank comment = true) :
    m.shown line = none := by
  rw [shown_of_hasComment hm hk hn h, Marks.ofComment, if_pos (blank_dropSpace hc)]
  rfl

theorem render_ofComment (m : Marks) (n : Int) (comment line line' : Text) :
    m.render line (m.ofComment n comment) = m.render line' (m.ofComment n comment) := by
  unfold Marks.ofComment
  dsimp only
  split
  · rfl
  · split <;> rfl

theorem Alike.shown_eq (hm : m.marker = [k]) (hk : Text.isBlank k = false) (hu : m.unit ≠ [])
    (hn : '\n' ∉ line) (hn' : '\n' ∉ line') (h : Alike m k line line') :
    m.shown line = m.shown line' := by
  cases h with
  | same => rfl
  | replaced hl hl' hi =>
    simp only [Marks.indentOf, if_neg hu, Option.some.injEq] at hi
    rw [shown_of_hasComment hm hk hn hl, shown_of_hasComment hm hk hn' hl', hi]
    exact render_ofComment _ _ _ _ _
  | deleted hl hl' hc hc' =>
    rw [shown_eq_none hm hk hn hl hc, shown_eq_none hm hk hn' hl' hc']

theorem filterMap_shown_eq (hm : m.marker = [k]) (hk : Text.isBlank k = false) (hu : m.unit ≠ [])
    (hn : ∀ l ∈ ls, '\n' ∉ l) (hn' : ∀ l ∈ ls', '\n' ∉ l) (h : List.Forall₂ (Alike m k) ls ls') :
    ls.filterMap m.shown = ls'.filterMap m.shown := by
  induction h with
  | nil => rfl
  | @cons line line' ls ls' hl _ ih =>
    rw [List.forall_mem_cons] at hn hn'
    rw [List.filterMap_cons, List.filterMap_cons, hl.shown_eq hm hk hu hn.1 hn'.1, ih hn.2 hn'.2]

end Directive

namespace Conversion

open Directive (Alike HasComment)

/-- Solutions whose lines are alike one by one have one practice version, whatever the code of
their directives is. -/
theorem result_eq_of_alike {c : Conversion} {k : Char} (hm : c.marks.marker = [k])
    (hk : Text.isBlank k = false) (hu : c.marks.unit ≠ []) {s s' : Text}
    (h : List.Forall₂ (Alike c.marks k) (Text.lines s) (Text.lines s')) (extension : Text) :
    c.result extension s = c.result extension s' ∧
      (c.result extension s).isSome = c.covers extension := by
  have hlines : (Text.lines s).filterMap c.marks.shown = (Text.lines s').filterMap c.marks.shown :=
    Directive.filterMap_shown_eq hm hk hu
      (fun l hl => (Text.unbroken_of_mem_lines hl).not_mem_lineFeed)
      (fun l hl => (Text.unbroken_of_mem_lines hl).not_mem_lineFeed) h
  rw [result, result, practiceText, practiceText, Directive.practiceLines_eq hu,
    Directive.practiceLines_eq hu, hlines]
  cases c.covers extension <;> exact ⟨rfl, rfl⟩

def exercise : Conversion where
  roots := Roots.ofNames (Path.ofText "/w") "s" "p" "res://"
  extensions := [".gd"]

def quoting : Text := "\ta = '#b' # c\n\tif a: #>pass\nd() # \n# e"

def unquoting : Text := "\tf(7)#b' # c\n\treturn #>pass\n  g(8)#\n# e"

theorem alike_quoting :
    List.Forall₂ (Alike exercise.marks '#') (Text.lines quoting) (Text.lines unquoting) := by
  have hlines : Text.lines quoting =
      ["\ta = '#b' # c".toList, "\tif a: #>pass".toList, "d() # ".toList, "# e".toList] := by
    decide
  have hlines' : Text.lines unquoting =
      ["\tf(7)#b' # c".toList, "\treturn #>pass".toList, "  g(8)#".toList, "# e".toList] := by
    decide
  rw [hlines, hlines']
  have hquote : HasComment '#' "\ta = '#b' # c" "b' # c" :=
    ⟨['\t'], 'a', " = '".toList, rfl, by simp [Directive.isIndent], rfl, by decide⟩
  have hcall : HasComment '#' "\tf(7)#b' # c" "b' # c" :=
    ⟨['\t'], 'f', "(7)".toList, rfl, by simp [Directive.isIndent], rfl, by decide⟩
  have htest : HasComment '#' "\tif a: #>pass" ">pass" :=
    ⟨['\t'], 'i', "f a: ".toList, rfl, by simp [Directive.isIndent], rfl, by decide⟩
  have hreturn : HasComment '#' "\treturn #>pass" ">pass" :=
    ⟨['\t'], 'r', "eturn ".toList, rfl, by simp [Directive.isIndent], rfl, by decide⟩
  have hspace : HasComment '#' "d() # " " " :=
    ⟨[], 'd', "() ".toList, rfl, by simp [Directive.isIndent], rfl, by decide⟩
  have hnothing : HasComment '#' "  g(8)#" "" :=
    ⟨[' ', ' '], 'g', "(8)".toList, rfl, by simp [Directive.isIndent], rfl, by decide⟩
  apply List.Forall₂.cons (.replaced hquote hcall (by decide))
  apply List.Forall₂.cons (.replaced htest hreturn (by decide))
  apply List.Forall₂.cons (.deleted hspace hnothing rfl rfl)
  apply List.Forall₂.cons (.same _)
  exact .nil

theorem result_eq_of_alike_quoting :
    exercise.marks.marker = ['#'] ∧ Text.isBlank '#' = false ∧ exercise.marks.unit ≠ [] ∧
    List.Forall₂ (Alike exercise.marks '#') (Text.lines quoting) (Text.lines unquoting) ∧
    exercise.result ".gd" quoting = exercise.result ".gd" unquoting ∧
    exercise.result ".gd" quoting = some "b' # c\n\t\tpass\n# e\n".toList := by
  have hsame := result_eq_of_alike (c := exercise) rfl rfl (by decide) alike_quoting ".gd"
  exact ⟨rfl, rfl, by decide, alike_quoting, hsame.1, by decide⟩

end Conversion

end Coursework
