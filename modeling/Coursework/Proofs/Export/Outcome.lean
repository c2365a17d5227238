import Coursework.CommandLine.Program
import Coursework.Proofs.Export.Refusals

/-!
How the commands that release a project end: with zero, with one, or with a fault that nothing
takes up.
-/

namespace Coursework

namespace Export

open FileTree CommandLine

variable {settings : Settings.Values} {programs : Programs} {v : Variant} {project output : Path}
  {disablePlugins : Bool} {time : Int} {s : State} {t u : FileTree} {file program : Text}
  {js : List Json} {n : Nat} {rel : Location}

def Legible (project output : Path) (leftOut : Json) (t : FileTree) (file : Text) : Prop :=
  (output ++ Path.ofText file).hasNull = false ∧
    ∃ name content time text, leftOutName leftOut = .ok name ∧
      Released project.parts output.parts name (Path.ofText file).parts ∧
      t.get? (project.parts ++ (Path.ofText file).parts) = some (.file content time) ∧
      Utf8.decode content = .ok text

end Export

end Coursework
