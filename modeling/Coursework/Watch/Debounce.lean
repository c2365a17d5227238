import Coursework.Keyed
import Coursework.Path

namespace Coursework.Watch

variable {τ : Type}

/-- When each exercise was last built, the exercises with a timer, oldest first, and whether a
rebuild is going on. -/
structure State (τ : Type) where
  lastBuilt : Keyed Path τ := []
  pending : List Path := []
  building : Bool := false
  deriving DecidableEq, Repr

inductive Reaction (τ : Type)
  | wait (delay : τ)
  | rebuild
  deriving DecidableEq, Repr

namespace State

def builtAt [Zero τ] (s : State τ) (d : Path) : τ := (Keyed.get? s.lastBuilt d).getD 0

def react [Zero τ] [Sub τ] [LT τ] [DecidableLT τ] (window now : τ) (s : State τ) (d : Path) :
    Reaction τ :=
  let rest := window - (now - s.builtAt d)
  if s.building then .wait window
  else if 0 < rest then .wait rest
  else .rebuild

def schedule (s : State τ) (d : Path) : State τ :=
  if d ∈ s.pending then s else { s with pending := s.pending ++ [d] }

def expire (s : State τ) (d : Path) : State τ := { s with pending := s.pending.erase d }

def cancelAll (s : State τ) : State τ := { s with pending := [] }

def start (s : State τ) : State τ := { s with building := true }

def finish (s : State τ) (d : Path) (now : τ) : State τ :=
  { s with lastBuilt := Keyed.set s.lastBuilt d now, building := false }

end State

structure Change where
  kind : Text
  source : Text
  destination : Text := []
  isDirectory : Bool := false
  deriving DecidableEq, Repr

def Change.counts (c : Change) : Bool :=
  !c.isDirectory &&
    (["created", "modified", "moved"].any fun k => c.kind == String.toList k)

def Change.path (c : Change) : Text := if c.destination = [] then c.source else c.destination

inductive Misplaced
  | watchedDirectory
  deriving DecidableEq, Repr

/-- The exercise that a path lies in. Files right in the root make up one of their own; caches and
paths outside belong to none. -/
def exerciseFor (root p : Path) : Except Misplaced (Option Path) :=
  match p.relativeTo root with
  | .error _ => .ok none
  | .ok q =>
    if q.parts.contains "__pycache__".toList then .ok none
    else match q.parts with
      | [] => .error .watchedDirectory
      | [_] => .ok (some root)
      | name :: _ => .ok (some (root.child name))

end Coursework.Watch
