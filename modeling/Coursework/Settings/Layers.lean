import Coursework.Build.Selection
import Coursework.Json.Basic

namespace Coursework.Settings

inductive Key
  | solutionsDirectory
  | practicesDirectory
  | resourceScheme
  | processableExtensions
  | sceneExtensions
  | excludes
  | scriptName
  | solutionGroup
  | indentUnit
  | executable
  | projectFile
  deriving DecidableEq, Repr

namespace Key

def all : List Key :=
  [.solutionsDirectory, .practicesDirectory, .resourceScheme, .processableExtensions,
    .sceneExtensions, .excludes, .scriptName, .solutionGroup, .indentUnit, .executable,
    .projectFile]

def name : Key → Text
  | .solutionsDirectory => "solutions_dir"
  | .practicesDirectory => "practices_dir"
  | .resourceScheme => "resource_scheme"
  | .processableExtensions => "processable_extensions"
  | .sceneExtensions => "scene_extensions"
  | .excludes => "excludes"
  | .scriptName => "diff_script_name"
  | .solutionGroup => "solution_only_group"
  | .indentUnit => "indent_unit"
  | .executable => "godot_executable"
  | .projectFile => "project_file"

def texts (ws : List Text) : Json := .list (ws.map .text)

def defaultExtensions : List Text := [".gd", ".tscn", ".tres", ".cfg"]

def default : Key → Json
  | .solutionsDirectory => .text "solutions"
  | .practicesDirectory => .text "practices"
  | .resourceScheme => .text "res://"
  | .processableExtensions => texts defaultExtensions
  | .sceneExtensions => texts [".tscn"]
  | .excludes => texts Selection.defaultExcludes
  | .scriptName => .text "diff.py"
  | .solutionGroup => .text "solution_only"
  | .indentUnit => .text ['\t']
  | .executable => .null
  | .projectFile => .text "project.godot"

end Key

abbrev Values := Key → Json

def Values.ofFields (layer : Fields Json) : Values := fun k =>
  (Keyed.get? layer k.name).getD k.default

def Values.toFields (v : Values) : Fields Json := Key.all.map fun k => (k.name, v k)

def Values.set (v : Values) (key : Key) (value : Json) : Values := fun k =>
  if k = key then value else v k

def stack (layers : List (Fields Json)) : Fields Json := layers.foldl Keyed.update []

inductive LayerFault
  | notIterable
  | notAPair (index length : Nat)
  | notASequence (index : Nat)
  | unhashableKey
  deriving DecidableEq, Repr

def pairOf (index : Nat) (j : Json) : Except LayerFault (List (Text × Json)) :=
  match j.parts? with
  | none => .error (.notASequence index)
  | some [.text k, v] => .ok [(k, v)]
  | some [.list _, _] => .error .unhashableKey
  | some [.object _, _] => .error .unhashableKey
  | some [_, _] => .ok []
  | some xs => .error (.notAPair index xs.length)

def pairsFrom (index : Nat) : List Json → Except LayerFault (List (Text × Json))
  | [] => .ok []
  | j :: js => do
    let p ← pairOf index j
    let ps ← pairsFrom (index + 1) js
    return p ++ ps

def layerOf (j : Json) : Except LayerFault (Fields Json) :=
  match j with
  | .object fs => .ok fs
  | _ => match j.parts? with
    | none => .error .notIterable
    | some xs => pairsFrom 0 xs

def LayerFault.message : LayerFault → Text
  | .notIterable => "object is not iterable"
  | .notAPair index length =>
    "dictionary update sequence element #" ++ Text.decimal index ++ " has length " ++
      Text.decimal length ++ "; 2 is required"
  | .notASequence index =>
    "cannot convert dictionary update sequence element #" ++ Text.decimal index ++
      " to a sequence"
  | .unhashableKey => "unhashable type"

def LayerFault.isLength : LayerFault → Bool
  | .notAPair .. => true
  | _ => false

end Coursework.Settings
