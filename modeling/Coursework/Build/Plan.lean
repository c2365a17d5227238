import Coursework.Directive.Content
import Coursework.Json.Shown
import Coursework.Settings.Basic

/-!
What a build goes by.
-/

namespace Coursework.Build

structure Plan where
  roots : Roots
  unit : Text := ['\t']
  textExtensions : List Text := Settings.Key.defaultExtensions
  sceneExtensions : List Text := [".tscn"]
  excludes : Selection.Excludes := {}
  scriptName : Option Text := some "diff.py"
  group : Option Text := some "solution_only"
  verbose : Bool := false
  deriving DecidableEq, Repr

namespace Plan

def ofValues (project : Path) (v : Settings.Values) (verbose : Bool) :
    Except Settings.Misfit Plan := do
  let solutions ← Settings.textOf (v .solutionsDirectory)
  let practices ← Settings.textOf (v .practicesDirectory)
  let excludes ← Settings.excludesOf (v.orDefault .excludes)
  let unit ← Settings.textOf (v .indentUnit)
  let textExtensions ← Settings.textsOf (v.orDefault .processableExtensions)
  let sceneExtensions ← Settings.textsOf (v .sceneExtensions)
  return {
    roots := Roots.ofNames project solutions practices (v .resourceScheme).shown
    unit, textExtensions, sceneExtensions, excludes, verbose
    scriptName := (v .scriptName).text?
    group := (v .solutionGroup).text? }

def conversion (b : Plan) : Conversion where
  roots := b.roots
  marks := { unit := b.unit }
  extensions := b.textExtensions

def editsScenes (b : Plan) (extension : Text) : Bool :=
  (b.sceneExtensions.map Text.lower).contains extension

end Plan

inductive Abort
  | notBelow (e : Path.NotBelow)
  | emptyUnit
  | misfit (e : Settings.Misfit)
  | endless
  | nullCharacter
  deriving DecidableEq, Repr

end Coursework.Build
