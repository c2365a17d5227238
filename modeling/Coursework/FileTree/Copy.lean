import Coursework.FileTree.Basic

/-!
Removing and copying whole directories.

A copy lists each directory when it gets there, so that it may come upon what it has made itself.
-/

namespace Coursework.FileTree

def removeTree (t : FileTree) (p : Path) : Except FileFault FileTree :=
  match t.locate p with
  | .error o => .error (o.fault p)
  | .ok l =>
    match t.get? l with
    | some .directory => .ok (t.prune l)
    | some (.file ..) => .error (.notTree p)
    | none => .error (.missing p)

def descend (t : FileTree) : Location → List Text → Except Location FileTree
  | _, [] => .ok t
  | here, name :: names =>
    let next := here ++ [name]
    match t.get? here, t.get? next with
    | some (.file ..), _ => .error next
    | _, none => descend (t.put next .directory) next names
    | _, some (.file ..) =>
      match names with
      | [] => .error next
      | name' :: _ => .error (next ++ [name'])
    | _, some .directory => descend t next names

inductive CopyFault
  | file (e : FileFault)
  | endless
  deriving DecidableEq, Repr

def listing (t : FileTree) (l : Location) : Except FileFault (List (Text × Entry)) :=
  match t.get? l with
  | none => .error (.missing ⟨.root, l⟩)
  | some (.file ..) => .error (.notDirectory ⟨.root, l⟩)
  | some .directory => .ok (t.childrenOf l)

def makeWay (t : FileTree) (l : Location) : Except FileFault FileTree :=
  match t.get? l, t.descend [] l with
  | some _, _ => .error (.present ⟨.root, l⟩)
  | none, .error m => .error (.notDirectory ⟨.root, m⟩)
  | none, .ok u => .ok u

def inTurn {α : Type} (step : FileTree → α → FileTree × Option CopyFault) :
    FileTree → List α → FileTree × Option CopyFault
  | t, [] => (t, none)
  | t, a :: as =>
    match step t a with
    | (u, none) => inTurn step u as
    | (u, some e) => (u, some e)

def copyAt (t : FileTree) (source target : Location) : FileTree × Option CopyFault :=
  match t.get? source with
  | none => (t, some (.file (.missing ⟨.root, source⟩)))
  | some .directory => (t, some (.file (.isDirectory ⟨.root, source⟩)))
  | some (.file content time) => (t.put target (.file content time), none)

abbrev Ignores := Location → Text → Bool

def copyWithin (ignores : Ignores) :
    Nat → Location → Location → FileTree → FileTree × Option CopyFault
  | 0, _, _, t => (t, some .endless)
  | levels + 1, source, target, t =>
    match t.listing source with
    | .error e => (t, some (.file e))
    | .ok found =>
      match t.makeWay target with
      | .error e => (t, some (.file e))
      | .ok u =>
        inTurn (fun u (name, e) => match e with
          | .directory => copyWithin ignores levels (source ++ [name]) (target ++ [name]) u
          | .file .. => u.copyAt (source ++ [name]) (target ++ [name])) u
          (found.filter fun (name, _) => !ignores source name)

def depth (t : FileTree) : Nat := (t.entries.map fun e => e.1.length).foldr max 0

/-- Copies what a directory holds to a location where nothing is yet. Files keep their times.

Deeper than all that is there, and than the way to the target, lies only what the copy itself has
made; a copy that gets there is taken to go on in its own copy for ever. -/
def copyTree (t : FileTree) (source target : Location) (ignores : Ignores) :
    FileTree × Option CopyFault :=
  copyWithin ignores (max t.depth target.length + 1) source target t

end Coursework.FileTree
