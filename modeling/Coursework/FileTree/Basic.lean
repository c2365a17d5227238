import Coursework.Keyed
import Coursework.Path
import Coursework.Text.Blank
import Coursework.Text.Utf8

/-!
A tree of files as a value: what lies at each location below the root, and the place at which
paths without an anchor are read.
-/

namespace Coursework

abbrev Location := List Text

/-- Directories carry no time of their own, and count as older than any file from after the
epoch. -/
inductive Entry
  | directory
  | file (content : Utf8.Bytes) (time : Int)
  deriving DecidableEq, Repr

namespace Entry

def isDirectory : Entry → Bool
  | .directory => true
  | .file .. => false

def isFile : Entry → Bool
  | .directory => false
  | .file .. => true

def time : Entry → Int
  | .directory => 0
  | .file _ t => t

end Entry

structure FileTree where
  entries : Keyed Location Entry := []
  place : Location := []
  deriving DecidableEq, Repr

inductive FileFault
  | missing (path : Path)
  | present (path : Path)
  | notDirectory (path : Path)
  | isDirectory (path : Path)
  | sameFile (source target : Path)
  | notTree (path : Path)
  | nullCharacter
  deriving DecidableEq, Repr

def FileFault.numbered (number : Text) (reason path : Text) : Text :=
  "[Errno " ++ number ++ "] " ++ reason ++ ": " ++ path

def FileFault.pathValue (p : Path) : Text := "PosixPath(" ++ Text.literal p.text ++ ")"

def FileFault.message : FileFault → Text
  | .missing p => numbered "2" "No such file or directory" (Text.literal p.text)
  | .present p => numbered "17" "File exists" (Text.literal p.text)
  | .notDirectory p => numbered "20" "Not a directory" (Text.literal p.text)
  | .isDirectory p => numbered "21" "Is a directory" (Text.literal p.text)
  | .sameFile p q => pathValue p ++ " and " ++ pathValue q ++ " are the same file"
  | .notTree p => numbered "20" "Not a directory" (pathValue p)
  | .nullCharacter => "embedded null byte"

namespace FileTree

def get? (t : FileTree) (l : Location) : Option Entry :=
  if l = [] then some .directory else Keyed.get? t.entries l

def put (t : FileTree) (l : Location) (e : Entry) : FileTree :=
  { t with entries := Keyed.set t.entries l e }

theorem get?_put (t : FileTree) {l m : Location} (e : Entry) (h : l ≠ []) :
    (t.put l e).get? m = if m = l then some e else t.get? m := by
  by_cases hm : m = l
  · subst hm; simp [get?, put, h, Keyed.get?_set]
  · by_cases hr : m = []
    · simp [get?, hr, Ne.symm h]
    · simp [get?, put, hr, Keyed.get?_set, hm]

def prune (t : FileTree) (l : Location) : FileTree :=
  { t with entries := t.entries.filter fun e => (Path.below? l e.1).isNone }

def filesBelow (t : FileTree) (l : Location) : List (Location × Utf8.Bytes × Int) :=
  t.entries.filterMap fun
    | (m, .file content time) => (Path.below? l m).map fun rel => (rel, content, time)
    | (_, .directory) => none

def childrenOf (t : FileTree) (l : Location) : List (Text × Entry) :=
  t.entries.filterMap fun (m, e) =>
    match Path.below? l m with
    | some [name] => some (name, e)
    | _ => none

inductive Obstacle
  | missing
  | notDirectory
  deriving DecidableEq, Repr

def follow (t : FileTree) : Location → List Text → Except Obstacle Location
  | here, [] => .ok here
  | here, name :: names =>
    match t.get? here with
    | none => .error .missing
    | some (.file ..) => .error .notDirectory
    | some .directory =>
      follow t (if name = ['.', '.'] then here.dropLast else here ++ [name]) names

def locate (t : FileTree) (p : Path) : Except Obstacle Location :=
  t.follow (if p.anchor = .here then t.place else []) p.parts

def entry (t : FileTree) (p : Path) : Option Entry :=
  match t.locate p with
  | .ok l => t.get? l
  | .error _ => none

def hasPath (t : FileTree) (p : Path) : Bool := (t.entry p).isSome

def hasFile (t : FileTree) (p : Path) : Bool := (t.entry p).any Entry.isFile

def hasDirectory (t : FileTree) (p : Path) : Bool := (t.entry p).any Entry.isDirectory

def timeOf (t : FileTree) (p : Path) : Int := ((t.entry p).map Entry.time).getD 0

def Obstacle.fault (p : Path) : Obstacle → FileFault
  | .missing => .missing p
  | .notDirectory => .notDirectory p

def readBytes (t : FileTree) (p : Path) : Except FileFault Utf8.Bytes :=
  if p.hasNull then .error .nullCharacter
  else match t.locate p with
  | .error o => .error (o.fault p)
  | .ok l =>
    match t.get? l with
    | none => .error (.missing p)
    | some .directory => .error (.isDirectory p)
    | some (.file content _) => .ok content

def writeBytes (t : FileTree) (p : Path) (content : Utf8.Bytes) (time : Int) :
    Except FileFault FileTree :=
  if p.hasNull then .error .nullCharacter
  else match t.locate p with
  | .error o => .error (o.fault p)
  | .ok l =>
    match t.get? l with
    | some .directory => .error (.isDirectory p)
    | _ => .ok (t.put l (.file content time))

def makeDirectory (t : FileTree) (p : Path) : Except FileFault FileTree :=
  if p.hasNull then .error .nullCharacter
  else match t.locate p with
  | .error o => .error (o.fault p)
  | .ok l =>
    match t.get? l with
    | some _ => .error (.present p)
    | none => .ok (t.put l .directory)

def ensureDirectory (t : FileTree) (p : Path) : FileTree × Option FileFault :=
  match t.makeDirectory p with
  | .ok u => (u, none)
  | .error e => (t, match e with
    | .missing _ => some e
    | _ => if t.hasDirectory p then none else some e)

def ensureDirectoriesWithin : Nat → FileTree → Path → FileTree × Option FileFault
  | 0, t, p => t.ensureDirectory p
  | levels + 1, t, p =>
    match t.makeDirectory p with
    | .ok u => (u, none)
    | .error (.missing q) =>
      if p.parts = [] then (t, some (.missing q))
      else match ensureDirectoriesWithin levels t p.parent with
        | (u, none) => u.ensureDirectory p
        | (u, some e) => (u, some e)
    | .error e => (t, if t.hasDirectory p then none else some e)

def ensureDirectories (t : FileTree) (p : Path) : FileTree × Option FileFault :=
  ensureDirectoriesWithin (p.parts.length + 1) t p

def same (t : FileTree) (p q : Path) : Bool :=
  match t.locate p, t.locate q with
  | .ok l, .ok m => l == m && (t.get? l).isSome
  | _, _ => false

def copyFile (t : FileTree) (source target : Path) (time : Int) : Except FileFault FileTree :=
  if t.same source target then
    .error (.sameFile source target)
  else do
    let content ← t.readBytes source
    t.writeBytes target content time

inductive TextFault
  | file (e : FileFault)
  | decoding (e : Utf8.Fault)
  deriving DecidableEq, Repr

def TextFault.message : TextFault → Text
  | .file e => e.message
  | .decoding e => e.message

def readText (t : FileTree) (p : Path) : Except TextFault Text :=
  match t.readBytes p with
  | .error e => .error (.file e)
  | .ok content =>
    match Utf8.decode content with
    | .error e => .error (.decoding e)
    | .ok s => .ok (Text.unifyLineEnds s)

def writeText (t : FileTree) (p : Path) (s : Text) (time : Int) : Except FileFault FileTree :=
  t.writeBytes p (Utf8.encode s) time

end FileTree

end Coursework
