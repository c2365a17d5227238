import Coursework.FileTree.Basic
import Coursework.Json.Printer
import Coursework.Json.Reader
import Coursework.Settings.Basic

/-!
The settings files: one in the home of the user, one next to the project.

A file that is missing or no readable JSON object counts as empty. One that is no text is a fault,
and so is one whose values stand too deep in each other or with a number that is too long.
-/

namespace Coursework.Settings

structure Surroundings where
  home : Path
  engine : Option Text := none
  deriving DecidableEq, Repr

inductive Fault
  | file (e : FileFault)
  | decoding (e : Utf8.Fault)
  | layer (e : LayerFault)
  | tooDeep
  | tooLong (digits : Nat)
  | reservedName
  deriving DecidableEq, Repr

def userDirectory (s : Surroundings) : Path := s.home.child ".practicegen"

def userFile (s : Surroundings) : Path := (userDirectory s).child "config.json"

def projectSettings (project : Path) : Path := project.child "practicegen.json"

def readObject (t : FileTree) (p : Path) : Except Fault (Fields Json) :=
  if t.hasPath p then
    match t.readText p with
    | .error (.file _) => .ok []
    | .error (.decoding e) => .error (.decoding e)
    | .ok s => match Json.read s with
      | .ok j => .ok (j.object?.getD [])
      | .error .malformed => .ok []
      | .error .tooDeep => .error .tooDeep
      | .error (.tooLong digits) => .error (.tooLong digits)
  else .ok []

def withUserFile {α : Type} (s : Surroundings) (t : FileTree)
    (f : FileTree → Except Fault α) : FileTree × Except Fault α :=
  match t.ensureDirectories (userDirectory s) with
  | (u, some e) => (u, .error (.file e))
  | (u, none) => (u, f u)

def loadUser (s : Surroundings) (t : FileTree) : FileTree × Except Fault (Fields Json) :=
  withUserFile s t fun u => readObject u (userFile s)

def saveUser (s : Surroundings) (t : FileTree) (value : Json) (time : Int) :
    FileTree × Except Fault Unit :=
  match withUserFile s t fun u =>
      match u.writeText (userFile s) value.indented time with
      | .ok v => .ok v
      | .error e => .error (.file e) with
  | (_, .ok v) => (v, .ok ())
  | (u, .error e) => (u, .error e)

def getUser (s : Surroundings) (t : FileTree) (key : Text) (default : Json) :
    FileTree × Except Fault Json :=
  match loadUser s t with
  | (u, .ok fs) => (u, .ok ((Keyed.get? fs key).getD default))
  | (u, .error e) => (u, .error e)

def setUser (s : Surroundings) (t : FileTree) (key : Text) (value : Json) (time : Int) :
    FileTree × Except Fault Unit :=
  match loadUser s t with
  | (u, .ok fs) => saveUser s u (.object (Keyed.set fs key value)) time
  | (u, .error e) => (u, .error e)

def engineOf (s : Surroundings) (t : FileTree) : FileTree × Except Fault Json :=
  match s.engine with
  | some (c :: cs) => (t, .ok (.text (c :: cs)))
  | _ => getUser s t "godot_executable" .null

def userLayer (user : Fields Json) : Except Fault (Fields Json) :=
  match layerOf ((Keyed.get? user "builder").getD (.object [])) with
  | .ok fs => .ok fs
  | .error e => .error (.layer e)

def overrideLayer (overrides : Fields Json) : Fields Json :=
  overrides.filter fun f => match f.2 with
    | .null => false
    | _ => true

def reservedNames : List Text := ["project_root", "cls"]

/-- The values for a project from the files of the user and of the project and from overrides. The
engine is looked for elsewhere only when none of these names one. -/
def loadWith (s : Surroundings) (t : FileTree) (project : Path) (overrides : Fields Json) :
    FileTree × Except Fault Values :=
  match loadUser s t with
  | (u, .error e) => (u, .error e)
  | (u, .ok user) =>
    match userLayer user with
    | .error e => (u, .error e)
    | .ok low =>
      match readObject u (projectSettings project) with
      | .error e => (u, .error e)
      | .ok middle =>
        let v := Values.ofFields (stack [low, middle, overrideLayer overrides])
        match v .executable with
        | .null =>
          match engineOf s u with
          | (w, .ok engine) => (w, .ok (v.set .executable engine))
          | (w, .error e) => (w, .error e)
        | _ => (u, .ok v)

def load (s : Surroundings) (t : FileTree) (project : Path) (overrides : Fields Json) :
    FileTree × Except Fault Values :=
  if overrides.any fun f => reservedNames.contains f.1 then (t, .error .reservedName)
  else loadWith s t project overrides

end Coursework.Settings
