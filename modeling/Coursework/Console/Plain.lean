import Coursework.Console
import Coursework.Text.Blank

namespace Coursework.Console

def afterTag : Text → Text
  | [] => []
  | c :: s => if c = ']' then s else afterTag s

theorem length_afterTag_le (s : Text) : (afterTag s).length ≤ s.length := by
  induction s with
  | nil => simp [afterTag]
  | cons c s ih =>
    by_cases h : c = ']' <;> simp [afterTag, h]
    omega

/-- Takes the tags out of a markup text. Of backslashes before a tag every second one stays, and an
odd one makes the tag plain text. The first argument counts the backslashes directly before. -/
def plainFrom (slashes : Nat) : Text → Text
  | [] => List.replicate slashes Text.backslash
  | c :: s =>
    if c = Text.backslash then plainFrom (slashes + 1) s
    else if c = '[' ∧ Text.opensTag s then
      if slashes % 2 = 0 then List.replicate (slashes / 2) Text.backslash ++ plainFrom 0 (afterTag s)
      else List.replicate (slashes / 2) Text.backslash ++ c :: plainFrom 0 s
    else List.replicate slashes Text.backslash ++ c :: plainFrom 0 s
termination_by s => s.length
decreasing_by
  all_goals have := length_afterTag_le s
  all_goals simp only [List.length_cons]
  all_goals omega

def plain (markup : Text) : Text := plainFrom 0 markup

def rowText (cells : List Text) : Text :=
  Text.join [' ', ' '] (cells.map fun c => c ++ List.replicate (10 - c.length) ' ')

def Item.plainLines : Item → List Text
  | .line markup => [plain markup]
  | .panel markup _ => Text.lines (plain markup)
  | .table title columns rows => title :: rowText columns :: rows.map fun r => rowText r.1

end Coursework.Console
