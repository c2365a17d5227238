import Coursework.Build.Directory
import Coursework.Console
import Coursework.Watch.Debounce

/-!
Watching a solutions tree: changes, timers and rebuilds in the order in which they come.
-/

namespace Coursework.Watch

variable {τ : Type}

structure Timing (τ : Type) where
  window : τ
  instant : Int → τ

inductive TimerNote (τ : Type)
  | started (directory : Path) (delay : τ)
  | cancelled (directory : Path)
  deriving DecidableEq, Repr

structure Interlude where
  elapsed : Int := 0
  changes : List Change := []
  deriving DecidableEq, Repr

inductive Fault
  | misplaced (e : Misplaced)
  | abort (a : Build.Abort)
  deriving DecidableEq, Repr

structure Session (τ : Type) where
  state : State τ := {}
  tree : FileTree
  clock : Int
  console : Console := []
  timers : List (TimerNote τ) := []

structure Setting (τ : Type) where
  plan : Build.Plan
  root : Path
  timing : Timing τ

def Setting.ofPlan (plan : Build.Plan) (place : Location) (timing : Timing τ) : Setting τ :=
  ⟨plan, plan.roots.solutions.absolute place, timing⟩

namespace Session

def print (s : Session τ) (markup : Text) : Session τ :=
  { s with console := s.console ++ [.line markup] }

def now (g : Setting τ) (s : Session τ) : τ := g.timing.instant s.clock

def advance (s : Session τ) (ms : Int) : Session τ := { s with clock := s.clock + ms }

def schedule (s : Session τ) (d : Path) (delay : τ) : Session τ :=
  if d ∈ s.state.pending then s
  else { s with state := s.state.schedule d, timers := s.timers ++ [.started d delay] }

def observe [Zero τ] [Sub τ] [LT τ] [DecidableLT τ] (g : Setting τ) (s : Session τ) (c : Change) :
    Session τ × Except Fault (Option Path) :=
  if c.counts then
    match exerciseFor g.root ((Path.ofText c.path).absolute s.tree.place) with
    | .error e => (s, .error (.misplaced e))
    | .ok none => (s, .ok none)
    | .ok (some d) =>
      match s.state.react g.timing.window (s.now g) d with
      | .wait delay => (s.schedule d delay, .ok none)
      | .rebuild => (s, .ok (some d))
  else (s, .ok none)

def observeAll [Zero τ] [Sub τ] [LT τ] [DecidableLT τ] (g : Setting τ) (s : Session τ) :
    List Change → Session τ × Option Fault
  | [] => (s, none)
  | c :: cs =>
    match s.observe g c with
    | (t, .error e) => (t, some e)
    | (t, .ok _) => observeAll g t cs

def finish (g : Setting τ) (s : Session τ) (d : Path) : Session τ :=
  { s with state := s.state.finish d (s.now g) }

def rebuild [Zero τ] [Sub τ] [LT τ] [DecidableLT τ] (g : Setting τ) (s : Session τ) (d : Path)
    (interlude : Option Interlude) (time : Int) : Session τ × Option Fault :=
  let s := { s with state := s.state.start }.print
    (['\n'] ++ Console.styled "cyan" ("Rebuilding " ++ d.name ++ "..."))
  let run := Build.buildDirectory g.plan s.tree false none time d
  let s := { s with
    tree := run.tree
    console := s.console ++ run.result.lines g.plan.roots.project g.plan.verbose }
  match run.abort with
  | some a => (s.finish g d, some (.abort a))
  | none =>
    let (s, fault) := match interlude with
      | none => (s, none)
      | some i => (s.advance i.elapsed).observeAll g i.changes
    match fault with
    | some e => (s.finish g d, some e)
    | none =>
      let s := if run.result.ok then s.print (Console.styled "green" (d.name ++ " is up to date"))
        else s.print (Console.styled "red" (d.name ++ " failed"))
      (s.finish g d, none)

def change [Zero τ] [Sub τ] [LT τ] [DecidableLT τ] (g : Setting τ) (s : Session τ) (c : Change)
    (interlude : Option Interlude) (time : Int) : Session τ × Option Fault :=
  match s.observe g c with
  | (t, .error e) => (t, some e)
  | (t, .ok none) => (t, none)
  | (t, .ok (some d)) => t.rebuild g d interlude time

def fire [Zero τ] [Sub τ] [LT τ] [DecidableLT τ] (g : Setting τ) (s : Session τ) (d : Path)
    (interlude : Option Interlude) (time : Int) : Session τ × Option Fault :=
  rebuild g { s with state := s.state.expire d } d interlude time

def cancelAll (s : Session τ) : Session τ :=
  { s with
    state := s.state.cancelAll
    timers := s.timers ++ s.state.pending.map .cancelled }

end Session

end Coursework.Watch
