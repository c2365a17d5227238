import Coursework.Build.Directory
import Coursework.Console
import Coursework.FileTree.Copy
import Coursework.Glob
import Coursework.ProjectFile

/-!
Copies of a project for release: the workbook without the solutions, and the reference project
without the practices.

The copy's project file is edited, and the engine is run on it once.
-/

namespace Coursework.Export

def alwaysIgnored : List Text := [".godot", ".import", ".git", "__pycache__", "*.pyc"]

namespace Programs

inductive Failure
  | notStarted (reason : Text)
  | illegible (e : Utf8.Fault)
  deriving DecidableEq, Repr

def Failure.message : Failure → Text
  | .notStarted reason => reason
  | .illegible e => e.message

structure Outcome where
  tree : FileTree
  result : Except Failure (Int × Text)

end Programs

structure Programs where
  find : Text → Option Text
  run : List Text → FileTree → Programs.Outcome

inductive Refusal
  | failedBuild (count : Nat)
  | noProjectFile (name : Text) (project : Path)
  | overlap (output : Path)
  | noEngine (name : Text)
  | failedImport (code : Int) (errors : Text)
  deriving DecidableEq, Repr

def Refusal.message : Refusal → Text
  | .failedBuild n =>
    "Practice build failed for " ++ Text.decimal n ++ " file(s), workbook not exported"
  | .noProjectFile name project => "No " ++ name ++ " in " ++ project.text
  | .overlap output => "Output directory " ++ output.text ++ " overlaps the project"
  | .noEngine name =>
    "Godot executable '" ++ name ++
      "' not found. Set GODOT_BIN or 'godot_executable' in ~/.practicegen/config.json"
  | .failedImport code errors =>
    let s := Text.trim errors
    "Project import failed with exit code " ++ Text.integer code ++ ": " ++
      s.drop (s.length - 500)

inductive Fault
  | refused (r : Refusal)
  | file (e : FileFault)
  | decoding (e : Utf8.Fault)
  | abort (a : Build.Abort)
  | misfit (e : Settings.Misfit)
  | endless
  | engine (e : Programs.Failure)
  deriving DecidableEq, Repr

structure State where
  tree : FileTree
  console : Console := []
  commands : List (List Text) := []

namespace State

def print (s : State) (markup : Text) : State :=
  { s with console := s.console ++ [.line markup] }

end State

structure Run (α : Type) where
  state : State
  result : Except Fault α

def refuse {α : Type} (s : State) (r : Refusal) : Run α := ⟨s, .error (.refused r)⟩

def placeNamed (t : FileTree) (name : Text) : Except Fault Path :=
  let p := Path.ofText name
  if p.hasNull then .error (.file .nullCharacter) else .ok (p.resolved t.place)

structure Variant where
  tag : Text
  leftOut : Settings.Key
  keepsMainScene : Bool
  deriving DecidableEq, Repr

def workbook : Variant := ⟨"Workbook", .solutionsDirectory, true⟩

def reference : Variant := ⟨"Solutions", .practicesDirectory, false⟩

def leftOutName : Json → Except Settings.Misfit (Option Text)
  | .text s => .ok (some s)
  | .list _ => .error .kind
  | .object _ => .error .kind
  | _ => .ok none

def leftOutNames : List Json → Except Settings.Misfit (List Text)
  | [] => .ok []
  | value :: values => do
    let name ← leftOutName value
    let names ← leftOutNames values
    return name.toList ++ names

/-- Names stay behind that are never released, that are left out of the project's own directory,
and that are the output itself. -/
def ignores (project output : Location) (leftOut : List Text) : FileTree.Ignores :=
  fun here name =>
    (alwaysIgnored.any fun p => Glob.fits p name) || (here == project && leftOut.contains name) ||
      here ++ [name] == output

def Fault.ofCopy : FileTree.CopyFault → Fault
  | .file e => .file e
  | .endless => .endless

def copyProject (t : FileTree) (project output : Path) (leftOut : List Json) :
    FileTree × Option Fault :=
  match if t.hasPath output then t.removeTree output else .ok t with
  | .error e => (t, some (.file e))
  | .ok u =>
    match leftOutNames leftOut with
    | .error e => (u, some (.misfit e))
    | .ok names =>
      let (v, e) := u.copyTree project.parts output.parts
        (ignores project.parts output.parts names)
      (v, e.map Fault.ofCopy)

def editProject (v : Variant) (disablePlugins : Bool) (p : ProjectFile) :
    ProjectFile × List Text :=
  let (p, removed) := if disablePlugins then p.stripPlugins else (p, [])
  let p := (p.tagName v.tag).1
  (if v.keepsMainScene then p else p.removeMainScene.1, removed)

def importCommand (program : Text) (output : Path) : List Text :=
  [program, "--headless", "--editor", "--quit", "--path", output.text]

def runImport (programs : Programs) (program : Text) (v : Variant) (output : Path) (s : State) :
    Run Path :=
  let command := importCommand program output
  let s := s.print (Console.styled "dim" ("$ " ++ Text.join [' '] command))
  let run := programs.run command s.tree
  let s := { s with tree := run.tree, commands := s.commands ++ [command] }
  match run.result with
  | .error e => ⟨s, .error (.engine e)⟩
  | .ok (0, _) =>
    ⟨s.print (Console.styled "green" (v.tag ++ " project ready at " ++ output.text)), .ok output⟩
  | .ok (code, errors) => refuse s (.failedImport code errors)

def editCopy (v : Variant) (file : Path) (disablePlugins : Bool) (time : Int) (s : State) :
    Run Unit :=
  match s.tree.readText file with
  | .error (.file e) => ⟨s, .error (.file e)⟩
  | .error (.decoding e) => ⟨s, .error (.decoding e)⟩
  | .ok text =>
    let (p, removed) := editProject v disablePlugins (ProjectFile.read text)
    let s := if removed = [] then s
      else s.print (Console.styled "dim" ("Removed sections: " ++ Text.join [',', ' '] removed))
    match s.tree.writeText file p.text time with
    | .error e => ⟨s, .error (.file e)⟩
    | .ok t => ⟨{ s with tree := t }, .ok ()⟩

def overlaps (project output : Path) : Bool :=
  output == project || project.ancestors.contains output

def engineOf (v : Settings.Values) : Json :=
  if (v .executable).isVoid then .text "godot" else v .executable

def findEngine (programs : Programs) (engine : Json) : Except Fault Text :=
  let sought : Except Fault (Option Text) := match engine with
    | .text name => .ok (programs.find name)
    | .list _ => .error (.misfit .kind)
    | .object _ => .error (.misfit .kind)
    | _ => .ok none
  match sought with
  | .error e => .error e
  | .ok (some program) => .ok program
  | .ok none => .error (.refused (.noEngine engine.shown))

def releaseWith (projectFile : Text) (leftOut : Json) (program : Text) (programs : Programs)
    (v : Variant) (project output : Path) (disablePlugins : Bool) (time : Int) (s : State) :
    Run Path :=
  let s := s.print (Console.styled "cyan" ("Copying project to " ++ output.text ++ "..."))
  match copyProject s.tree project output [leftOut] with
  | (t, some e) => ⟨{ s with tree := t }, .error e⟩
  | (t, none) =>
    match editCopy v (output ++ Path.ofText projectFile) disablePlugins time
        { s with tree := t } with
    | ⟨s, .error e⟩ => ⟨s, .error e⟩
    | ⟨s, .ok ()⟩ => runImport programs program v output s

def release (settings : Settings.Values) (programs : Programs) (v : Variant) (project : Path)
    (output : Except Fault Path) (disablePlugins : Bool) (time : Int) (s : State) : Run Path :=
  match output, settings .projectFile with
  | .error e, _ => ⟨s, .error e⟩
  | .ok output, .text file =>
    if !s.tree.hasFile (project ++ Path.ofText file) then refuse s (.noProjectFile file project)
    else if overlaps project output then refuse s (.overlap output)
    else match findEngine programs (engineOf settings) with
      | .error e => ⟨s, .error e⟩
      | .ok program =>
        releaseWith file (settings v.leftOut) program programs v project output disablePlugins
          time s
  | .ok _, _ => ⟨s, .error (.misfit .kind)⟩

def exportWorkbook (settings : Settings.Values) (programs : Programs) (project : Path)
    (output : Except Fault Path) (disablePlugins : Bool) (time : Int) (s : State) : Run Path :=
  match Build.Plan.ofValues project settings false with
  | .error e => ⟨s, .error (.misfit e)⟩
  | .ok plan =>
    let run := Build.buildAll plan s.tree false none time
    let s : State := ⟨run.tree, s.console ++ run.result.lines project false, s.commands⟩
    match run.abort with
    | some a => ⟨s, .error (.abort a)⟩
    | none =>
      if run.result.ok then
        release settings programs workbook project output disablePlugins time s
      else refuse s (.failedBuild run.result.failures.length)

def exportReference (settings : Settings.Values) (programs : Programs) (project : Path)
    (output : Except Fault Path) (disablePlugins : Bool) (time : Int) (s : State) : Run Path :=
  release settings programs reference project output disablePlugins time s

end Coursework.Export
