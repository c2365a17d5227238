import Coursework.Build.Plan
import Coursework.Build.Report
import Coursework.Build.Script
import Coursework.Build.Staleness

namespace Coursework.Build

structure Done (α : Type) where
  tree : FileTree
  result : α

def produce (b : Plan) (t : FileTree) (script : Option SceneScript) (source target : Path)
    (time : Int) : Except Abort (Except Text (FileTree × Outcome)) :=
  let copy : Except Text (FileTree × Outcome) :=
    match t.copyFile source target time with
    | .ok u => .ok (u, .copy)
    | .error e => .error e.message
  match script with
  | none => .ok copy
  | some s =>
    if b.editsScenes source.extension then
      match applyScript t b.group s source target time with
      | .ok u => .ok (.ok (u, .diff))
      | .error (.defect .endless) => .error .endless
      | .error e => .ok (.error e.message)
    else .ok copy

def convert (b : Plan) (t : FileTree) (extension : Text) (target : Path) (time : Int) :
    Except Abort (Except Text (FileTree × List Outcome)) :=
  if b.conversion.covers extension then
    match t.readText target with
    | .error e => .ok (.error e.message)
    | .ok s =>
      match b.conversion.practiceText s with
      | none => .error .emptyUnit
      | some p => match t.writeText target p time with
        | .ok u => .ok (.ok (u, [.process]))
        | .error e => .ok (.error e.message)
  else .ok (.ok (t, []))

def regenerate (b : Plan) (t : FileTree) (script : Option SceneScript) (source target : Path)
    (time : Int) : Done (Except Abort FileResult) :=
  let failed (u : FileTree) (steps : List Outcome) (m : Text) : Done (Except Abort FileResult) :=
    ⟨u, .ok ⟨source, target, steps ++ [.fail], m⟩⟩
  match t.ensureDirectories target.parent with
  | (u, some .nullCharacter) => ⟨u, .error .nullCharacter⟩
  | (u, some e) => failed u [] e.message
  | (u, none) =>
    match produce b u script source target time with
    | .error a => ⟨u, .error a⟩
    | .ok (.error m) => failed u [] m
    | .ok (.ok (v, step)) =>
      match convert b v source.extension target time with
      | .error a => ⟨v, .error a⟩
      | .ok (.error m) => failed v [step] m
      | .ok (.ok (w, steps)) => ⟨w, .ok ⟨source, target, step :: steps, []⟩⟩

def buildFile (b : Plan) (t : FileTree) (script : Option SceneScript) (forced : Bool)
    (source : Path) (time : Int) : Done (Except Abort FileResult) :=
  match b.roots.practiceOf source with
  | .error e => ⟨t, .error (.notBelow e)⟩
  | .ok target =>
    if upToDate (t.timeOf source) (t.timeOf target) ((script.map SceneScript.time).getD 0)
        (t.hasPath target) forced then
      ⟨t, .ok ⟨source, target, [.skip], []⟩⟩
    else regenerate b t script source target time

end Coursework.Build
