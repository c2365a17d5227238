import Coursework.CommandLine.Options
import Coursework.Export
import Coursework.Settings.Files

namespace Coursework.CommandLine

structure World where
  tree : FileTree
  surroundings : Settings.Surroundings
  programs : Export.Programs
  time : Int

inductive Fault
  | exit (e : Exit)
  | settings (e : Settings.Fault)
  | misfit (e : Settings.Misfit)
  | abort (a : Build.Abort)
  | file (e : FileFault)
  | decoding (e : Utf8.Fault)
  | endless
  | engine (e : Export.Programs.Failure)
  deriving DecidableEq, Repr

structure Result where
  tree : FileTree
  console : Console := []
  commands : List (List Text) := []
  watching : Option Build.Plan := none
  code : Except Fault Nat

def statusOf (ok : Bool) : Nat := if ok then 0 else 1

def runPlan (w : World) (project : Path) (plan : Build.Plan) (force : Bool)
    (pattern : Option Text) (watch : Bool) : Result :=
  if w.tree.hasDirectory plan.roots.solutions then
    let panel : Console.Item :=
      .panel ("[bold]Building practices[/bold]\n[dim]" ++ Text.escapeMarkup project.text ++ "[/dim]")
        "cyan"
    let run := Build.buildAll plan w.tree force pattern w.time
    let lines := panel :: run.result.lines project plan.verbose
    match run.abort with
    | some a => { tree := run.tree, console := lines, code := .error (.abort a) }
    | none =>
      { tree := run.tree
        console := lines ++ run.result.summary
        watching := if watch then some plan else none
        code := .ok (statusOf run.result.ok) }
  else
    { tree := w.tree
      console := [.line (Console.styled "red"
        ("No solutions directory at " ++ plan.roots.solutions.text))]
      code := .ok 1 }

def runPractices (w : World) (project : Path) (settings : Settings.Values) (verbose force : Bool)
    (pattern : Option Text) (watch : Bool) : Result :=
  match Build.Plan.ofValues project settings verbose with
  | .error e => { tree := w.tree, code := .error (.misfit e) }
  | .ok plan => runPlan w project plan force pattern watch

def Fault.ofExport : Export.Fault → Except Fault Text
  | .refused r => .ok r.message
  | .file e => .error (.file e)
  | .decoding e => .error (.decoding e)
  | .abort a => .error (.abort a)
  | .misfit e => .error (.misfit e)
  | .endless => .error .endless
  | .engine e => .error (.engine e)

def resultOf (run : Export.Run Path) : Result :=
  let s := run.state
  match run.result with
  | .ok _ => { tree := s.tree, console := s.console, commands := s.commands, code := .ok 0 }
  | .error e =>
    match Fault.ofExport e with
    | .ok message =>
      { tree := s.tree
        console := s.console ++ [.line (Console.styled "red"
          ("Export failed: " ++ Text.escapeMarkup message))]
        commands := s.commands
        code := .ok 1 }
    | .error fault =>
      { tree := s.tree, console := s.console, commands := s.commands, code := .error fault }

def World.placeOf (w : World) : Value → Except Export.Fault Path
  | .text s => Export.placeNamed w.tree s
  | .empty => .error (.misfit .kind)

def runCommand (w : World) (project : Path) (settings : Settings.Values) (verbose : Bool) :
    Command → Result
  | .practices force pattern watch =>
    runPractices w project settings verbose force (pattern.bind Value.text?) watch
  | .workbook output disablePlugins =>
    resultOf (Export.exportWorkbook settings w.programs project (w.placeOf output) disablePlugins
      w.time ⟨w.tree, [], []⟩)
  | .solutions output disablePlugins =>
    resultOf (Export.exportReference settings w.programs project (w.placeOf output) disablePlugins
      w.time ⟨w.tree, [], []⟩)

def runIn (w : World) (project : Path) (verbose : Bool) (c : Command) : Result :=
  match Settings.load w.surroundings w.tree project [] with
  | (t, .error e) => { tree := t, code := .error (.settings e) }
  | (t, .ok settings) => runCommand { w with tree := t } project settings verbose c

def run (w : World) (args : List Text) : Result :=
  match read args with
  | .error e => { tree := w.tree, code := .error (.exit e) }
  | .ok a =>
    match a.command with
    | none => { tree := w.tree, code := .ok 1 }
    | some c =>
      match w.placeOf a.project with
      | .error e => resultOf ⟨⟨w.tree, [], []⟩, .error e⟩
      | .ok project => runIn w project a.verbose c

def watchingLines (solutions : Path) : Console :=
  [.line (['\n'] ++ Console.styled "green" ("Watching " ++ solutions.text ++ " for changes...")),
    .line (Console.styled "dim" "Practices are rebuilt each time you save a solution.")]

def stoppingLine : Console.Item :=
  .line (['\n'] ++ Console.styled "dim" "Stopping file watcher...")

end Coursework.CommandLine
