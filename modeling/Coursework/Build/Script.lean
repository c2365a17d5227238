import Coursework.FileTree.Basic
import Coursework.Json.Reader
import Coursework.Scene.Script

namespace Coursework.Build

structure SceneScript where
  path : Path
  time : Int
  transforms : Fields (List Scene.Edit)
  deriving DecidableEq, Repr

inductive ScriptFault
  | notAScript (path : Path)
  | broken (path : Path) (e : Scene.Script.Fault)
  deriving DecidableEq, Repr

def ScriptFault.message : ScriptFault → Text
  | .notAScript p => "Cannot load diff script " ++ p.text
  | .broken p e => "Error in diff script " ++ p.text ++ ": " ++ e.message

/-- The members of a script file, which are data: a script only turns scenes into scenes, and reads
and writes no file. A file without the heading of scripts has none. -/
def membersOf (content : Utf8.Bytes) : Scene.Script :=
  match Utf8.decode content with
  | .error _ => []
  | .ok s => match (Text.after? Scene.Script.heading s).map Json.read with
    | some (.ok j) => Scene.Script.ofJson j
    | _ => []

def loadScript (t : FileTree) (directory : Path) (name : Text) :
    Except ScriptFault (Option SceneScript) :=
  let p := directory ++ Path.ofText name
  match t.entry p with
  | some (.file content time) =>
    if Text.endsWith p.text ".py" then
      match (membersOf content).transforms with
      | .ok transforms => .ok (some ⟨p, time, transforms⟩)
      | .error e => .error (.broken p e)
    else .error (.notAScript p)
  | _ => .ok none

inductive SceneFault
  | noTransform (scene script : Path) (name : Text)
  | format (source : Text) (e : Scene.Fault)
  | transform (scene script : Path) (name : Text) (e : Scene.Edit.Fault)
  | defect (d : Scene.Defect)
  | file (e : FileFault)
  deriving DecidableEq, Repr

def SceneFault.message : SceneFault → Text
  | .noTransform scene script name =>
    scene.text ++ ": diff script " ++ script.text ++ " has no function '" ++ name ++ ['\x27']
  | .format source e => e.message source
  | .transform scene script name e =>
    scene.text ++ ": diff function '" ++ name ++ "' in " ++ script.text ++ " failed: " ++ e.message
  | .defect d => d.message
  | .file e => e.message

def loadScene (t : FileTree) (p : Path) : Except SceneFault Scene :=
  match t.readText p with
  | .error (.file e) => .error (.file e)
  | .error (.decoding e) => .error (.format p.text (.notText e))
  | .ok s => match Scene.read s with
    | .ok scene => .ok scene
    | .error e => .error (.format p.text e)

def saveScene (t : FileTree) (scene : Scene) (p : Path) (time : Int) :
    Except SceneFault FileTree :=
  match scene.text with
  | .error d => .error (.defect d)
  | .ok s => match t.writeText p s time with
    | .ok u => .ok u
    | .error e => .error (.file e)

def withoutGroup (group : Option Text) (scene : Scene) : Scene :=
  match group, scene.root with
  | some group, some r => { scene with forest := scene.forest.stripGroup group r }
  | _, _ => scene

inductive Rejection
  | step (e : Scene.Edit.Fault)
  | defect (d : Scene.Defect)
  deriving DecidableEq, Repr

def practiceScene (group : Option Text) (edits : List Scene.Edit) (scene : Scene) :
    Except Rejection Scene :=
  let start := withoutGroup group scene
  match (Scene.Session.start start).runAll edits with
  | (_, some e) => .error (.step e)
  | (s, none) => match { start with forest := s.forest }.pruneConnections with
    | .error d => .error (.defect d)
    | .ok practice => .ok practice

def applyScript (t : FileTree) (group : Option Text) (script : SceneScript)
    (source target : Path) (time : Int) : Except SceneFault FileTree :=
  let name := source.stem
  match Keyed.get? script.transforms name with
  | none => .error (.noTransform source script.path name)
  | some edits => do
    let scene ← loadScene t source
    match practiceScene group edits scene with
    | .error (.step e) => .error (.transform source script.path name e)
    | .error (.defect d) => .error (.defect d)
    | .ok practice => saveScene t practice target time

end Coursework.Build
