import Coursework.Text.Literal

namespace Coursework.Text

def closesTag : Text → Bool
  | [] => false
  | c :: s => c == ']' || c != '[' && closesTag s

def opensTag : Text → Bool
  | [] => false
  | c :: s => ('a' ≤ c && c ≤ 'z' || c == '#' || c == '/' || c == '@') && closesTag s

def escapeTagsFrom : Nat → Text → Text
  | slashes, [] => List.replicate slashes backslash
  | slashes, c :: s =>
    if c = backslash then escapeTagsFrom (slashes + 1) s
    else if c = '[' ∧ opensTag s then
      List.replicate (2 * slashes + 1) backslash ++ c :: escapeTagsFrom 0 s
    else List.replicate slashes backslash ++ c :: escapeTagsFrom 0 s

def escapeMarkup (s : Text) : Text :=
  let t := escapeTagsFrom 0 s
  if endsWith t [backslash] && !endsWith t [backslash, backslash] then t ++ [backslash] else t

end Coursework.Text
