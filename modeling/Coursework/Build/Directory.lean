import Coursework.Build.File

namespace Coursework.Build

def scan (t : FileTree) (excludes : List Text) (directory : Path) (pattern : Option Text)
    (recursive : Bool) : List Path :=
  match t.locate directory with
  | .error _ => []
  | .ok l =>
    if (t.get? l).any Entry.isDirectory then
      ((t.filesBelow l).filterMap fun (rel, _) =>
        if rel ≠ [] ∧ (recursive ∨ rel.length = 1) ∧
            Selection.selects excludes pattern ⟨.here, rel⟩ then
          some ⟨directory.anchor, directory.parts ++ rel⟩
        else none).mergeSort Path.le
    else []

def scanWith (t : FileTree) (excludes : Selection.Excludes) (directory : Path)
    (pattern : Option Text) (recursive : Bool) : Except Settings.Misfit (List Path) :=
  if excludes.complete || (scan t excludes.patterns directory none recursive).isEmpty then
    .ok (scan t excludes.patterns directory pattern recursive)
  else .error .kind

def isExerciseName (name : Text) : Bool :=
  name != "__pycache__".toList && name.head? != some '.'

def subdirectories (t : FileTree) (directory : Path) : List Path :=
  match t.locate directory with
  | .error _ => []
  | .ok l =>
    ((t.childrenOf l).filterMap fun (name, e) =>
      if e.isDirectory && isExerciseName name then some (directory.child name)
      else none).mergeSort Path.le

namespace Plan

def filesOf (b : Plan) (t : FileTree) (directory : Path) (pattern : Option Text) :
    Except Settings.Misfit (List Path) :=
  scanWith t b.excludes directory pattern (directory != b.roots.solutions)

def withFiles (b : Plan) (t : FileTree) (pattern : Text) :
    List Path → Except Settings.Misfit (List Path)
  | [] => .ok []
  | d :: ds => do
    let files ← b.filesOf t d (some pattern)
    let rest ← b.withFiles t pattern ds
    return if files.isEmpty then rest else d :: rest

def exercises (b : Plan) (t : FileTree) (pattern : Option Text) :
    Except Settings.Misfit (List Path) :=
  let root := b.roots.solutions
  if t.hasDirectory root then do
    let files ← scanWith t b.excludes root none false
    let all := (if files.isEmpty then [] else [root]) ++ subdirectories t root
    match pattern with
    | some (c :: cs) => b.withFiles t (c :: cs) all
    | _ => return all
  else .ok []

end Plan

structure Run (α : Type) where
  tree : FileTree
  result : α
  abort : Option Abort := none

def buildFiles (b : Plan) (script : Option SceneScript) (forced : Bool) (time : Int) :
    FileTree → List Path → Run (List FileResult)
  | t, [] => ⟨t, [], none⟩
  | t, p :: ps =>
    match buildFile b t script forced p time with
    | ⟨u, .error a⟩ => ⟨u, [], some a⟩
    | ⟨u, .ok r⟩ =>
      if r.failed then ⟨u, [r], none⟩
      else
        let rest := buildFiles b script forced time u ps
        ⟨rest.tree, r :: rest.result, rest.abort⟩

def buildWithScript (b : Plan) (t : FileTree) (scriptName : Text) (forced : Bool)
    (pattern : Option Text) (time : Int) (directory : Path) : Run DirectoryResult :=
  match loadScript t directory scriptName with
  | .error e =>
    match b.roots.practiceOf directory with
    | .error a => ⟨t, ⟨directory, []⟩, some (.notBelow a)⟩
    | .ok target =>
      let source := directory ++ Path.ofText scriptName
      ⟨t, ⟨directory, [⟨source, target, [.fail], e.message⟩]⟩, none⟩
  | .ok script =>
    match b.filesOf t directory pattern with
    | .error e => ⟨t, ⟨directory, []⟩, some (.misfit e)⟩
    | .ok files =>
      let run := buildFiles b script forced time t files
      ⟨run.tree, ⟨directory, run.result⟩, run.abort⟩

def buildDirectory (b : Plan) (t : FileTree) (forced : Bool) (pattern : Option Text)
    (time : Int) (directory : Path) : Run DirectoryResult :=
  match b.scriptName with
  | none => ⟨t, ⟨directory, []⟩, some (.misfit .kind)⟩
  | some name => buildWithScript b t name forced pattern time directory

def buildDirectories (b : Plan) (forced : Bool) (pattern : Option Text) (time : Int) :
    FileTree → List Path → Run (List DirectoryResult)
  | t, [] => ⟨t, [], none⟩
  | t, d :: ds =>
    match buildDirectory b t forced pattern time d with
    | ⟨u, r, some a⟩ => ⟨u, [r], some a⟩
    | ⟨u, r, none⟩ =>
      let rest := buildDirectories b forced pattern time u ds
      ⟨rest.tree, r :: rest.result, rest.abort⟩

/-- Builds all exercises. Whatever the build writes has the one time that is given, and the
directories that it makes have none. -/
def buildAll (b : Plan) (t : FileTree) (forced : Bool) (pattern : Option Text) (time : Int) :
    Run BuildReport :=
  match b.exercises t pattern with
  | .error e => ⟨t, {}, some (.misfit e)⟩
  | .ok ds =>
    let run := buildDirectories b forced pattern time t ds
    ⟨run.tree, ⟨run.result⟩, run.abort⟩

end Coursework.Build
