import Coursework.CommandLine.Program
import Coursework.Console.Plain
import Coursework.Watch.Session

namespace Coursework.Program

def shown (s : Text) : String := String.ofList s

def pathOf (l : Location) : String := "/" ++ shown (Text.join ['/'] l)

def timeOf (m : IO.FS.Metadata) : Int := m.modified.sec * 1000000000 + m.modified.nsec.toNat

partial def readBelow (l : Location) : IO (List (Location × Entry)) := do
  let path := (← IO.currentDir) / pathOf l
  try
    let data ← path.metadata
    if data.type == .file then
      return [(l, .file (← IO.FS.readBinFile path).toList (timeOf data))]
    if data.type == .dir then
      let mut found := [(l, Entry.directory)]
      for child in ← path.readDir do
        found := found ++ (← readBelow (l ++ [child.fileName.toList]))
      return found
    return []
  catch _ => return []

def readAbove (l : Location) : IO (List (Location × Entry)) := do
  let here ← IO.currentDir
  let mut found := []
  for n in [1:l.length] do
    let above := l.take n
    try
      if ← (here / pathOf above).isDir then found := found ++ [(above, Entry.directory)]
    catch _ => pure ()
  return found

def readAll (place : Location) (locations : List Location) : IO FileTree := do
  let mut tree : FileTree := ⟨[], place⟩
  for l in locations do
    for (m, e) in (← readAbove l) ++ (← readBelow l) do
      tree := tree.put m e
  return tree

def writeChanges (before after : FileTree) : IO Unit := do
  for (l, e) in before.entries.reverse do
    if (after.get? l).isNone then
      try
        if e.isDirectory then IO.FS.removeDirAll (pathOf l) else IO.FS.removeFile (pathOf l)
      catch _ => pure ()
  for (l, e) in after.entries do
    if before.get? l != some e then
      match e with
      | .directory => IO.FS.createDirAll (pathOf l)
      | .file content _ =>
        IO.FS.createDirAll (pathOf l.dropLast)
        IO.FS.writeBinFile (pathOf l) ⟨content.toArray⟩

def printConsole (c : Console) : IO Unit := do
  for item in c do
    for line in item.plainLines do
      IO.println (shown line)

def usage : String :=
  "usage: [--project PATH] [-v] \x7bpractices,workbook,solutions\x7d ...\n" ++
  "  practices [-f] [--pattern GLOB] [--watch]\n" ++
  "  workbook -o OUTPUT [--disable-plugins]\n" ++
  "  solutions -o OUTPUT [--disable-plugins]"

def nextTime (t : FileTree) : Int := t.entries.foldl (fun m e => max m e.2.time) 0 + 1

def findProgram (name : Text) : IO (Option Text) := do
  let directories := ((← IO.getEnv "PATH").getD "").toList
  let candidates := if name.contains '/' then [name]
    else (Text.splitOn ':' directories).map fun d => d ++ ['/'] ++ name
  for c in candidates do
    try
      let _ ← IO.FS.readBinFile (shown c)
      return some c
    catch _ => pure ()
  return none

def settingsFaultText : Settings.Fault → Text
  | .file e => e.message
  | .decoding e => e.message
  | .layer e => e.message
  | .tooDeep => "a settings file is nested too deeply"
  | .tooLong digits => "a settings file has a number of " ++ Text.decimal digits ++ " digits"
  | .reservedName => "a setting has a reserved name"

def misfitText : Settings.Misfit → Text
  | .kind => "a setting is not of the right kind"
  | .part => "a part of a setting is not of the right kind"

def abortText : Build.Abort → Text
  | .notBelow e => e.message
  | .emptyUnit => "the indentation unit is empty"
  | .misfit e => misfitText e
  | .endless => Scene.Defect.endless.message
  | .nullCharacter => FileFault.nullCharacter.message

def faultText : CommandLine.Fault → Text
  | .exit _ => []
  | .settings e => settingsFaultText e
  | .misfit e => misfitText e
  | .abort a => abortText a
  | .file e => e.message
  | .decoding e => e.message
  | .endless => "the copy of a project goes on in itself"
  | .engine e => e.message

def engineName (v : Settings.Values) : Text := ((Export.engineOf v).text?).getD []

abbrev Timers := List (Path × Int)

def noted (now : Int) (timers : Timers) (notes : List (Watch.TimerNote Int)) : Timers :=
  notes.foldl (fun ts n => match n with
    | .started d delay => ts ++ [(d, now + delay)]
    | .cancelled d => ts.filter fun t => t.1 != d) timers

def changedFiles (before after : FileTree) (root : Location) : List Watch.Change :=
  (after.filesBelow root).filterMap fun (rel, _, time) =>
    let path := (Path.mk .root (root ++ rel)).text
    match before.get? (root ++ rel) with
    | some (.file _ old) => if old = time then none else some ⟨"modified", path, [], false⟩
    | _ => some ⟨"created", path, [], false⟩

partial def watch (setting : Watch.Setting Int) (project : Location)
    (session : Watch.Session Int) (timers : Timers) : IO Unit := do
  IO.sleep 500
  let now : Int := (← IO.monoMsNow)
  let tree ← readAll session.tree.place [project]
  let changes := changedFiles session.tree tree setting.root.parts
  let mut s := { session with tree := tree, clock := now, console := [], timers := [] }
  for c in changes do
    s := (s.change setting c none (nextTime s.tree)).1
  for (d, due) in timers do
    if due ≤ now then s := (s.fire setting d none (nextTime s.tree)).1
  writeChanges tree s.tree
  printConsole s.console
  let left := timers.filter fun t => now < t.2
  let after ← readAll s.tree.place [project]
  watch setting project { s with tree := after } (noted now left s.timers)

def run (args : List Text) (a : CommandLine.Arguments) : IO UInt32 := do
  let place := Path.partsOf (← IO.currentDir).toString.toList
  let home := Path.ofText ((← IO.getEnv "HOME").getD "/").toList
  let surroundings : Settings.Surroundings := ⟨home, (← IO.getEnv "GODOT_BIN").map String.toList⟩
  let locationOf (v : CommandLine.Value) : List Location :=
    (v.text?.map fun s => ((Path.ofText s).resolved place).parts).toList
  let output := match a.command with
    | some (.workbook o _) => locationOf o
    | some (.solutions o _) => locationOf o
    | _ => []
  let tree ← readAll place
    (locationOf a.project ++ [(Settings.userDirectory surroundings).parts] ++ output)
  let projects := (locationOf a.project).map (Path.mk .root)
  let engine := match projects.map fun p => (Settings.load surroundings tree p []).2 with
    | .ok settings :: _ => engineName settings
    | _ => []
  let program ← findProgram engine
  let programs : Export.Programs :=
    ⟨fun name => if name = engine then program else none, fun _ tree => ⟨tree, .ok (0, [])⟩⟩
  let result := CommandLine.run ⟨tree, surroundings, programs, nextTime tree⟩ args
  writeChanges tree result.tree
  printConsole result.console
  match result.watching with
  | none => pure ()
  | some plan =>
    printConsole (CommandLine.watchingLines plan.roots.solutions)
    let setting := Watch.Setting.ofPlan plan place ⟨1000, id⟩
    let project := plan.roots.project.parts
    watch setting project { tree := ← readAll place [project], clock := 0 } []
  match result.code with
  | .ok code => return code.toUInt32
  | .error fault =>
    IO.eprintln (shown (faultText fault))
    return 1

end Coursework.Program

open Coursework in
def main (args : List String) : IO UInt32 := do
  let words := args.map String.toList
  match CommandLine.read words with
  | .error e =>
    IO.println Program.usage
    return e.code.toUInt32
  | .ok a =>
    if a.command.isNone then IO.println Program.usage
    Program.run words a
