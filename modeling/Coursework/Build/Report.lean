import Coursework.Path

namespace Coursework

inductive Outcome
  | skip
  | copy
  | process
  | diff
  | fail
  deriving DecidableEq, Repr

namespace Outcome

def all : List Outcome := [.skip, .copy, .process, .diff, .fail]

def text : Outcome → Text
  | .skip => "skip"
  | .copy => "copy"
  | .process => "process"
  | .diff => "diff"
  | .fail => "fail"

end Outcome

structure FileResult where
  source : Path
  target : Path
  steps : List Outcome := []
  message : Text := []
  deriving DecidableEq, Repr

namespace FileResult

def outcome (r : FileResult) : Outcome := r.steps.getLast?.getD .skip

def failed (r : FileResult) : Bool := r.steps.contains .fail

end FileResult

structure DirectoryResult where
  directory : Path
  files : List FileResult := []
  deriving DecidableEq, Repr

namespace DirectoryResult

def failures (d : DirectoryResult) : List FileResult := d.files.filter FileResult.failed

def ok (d : DirectoryResult) : Bool := !d.files.any FileResult.failed

def count (d : DirectoryResult) (o : Outcome) : Nat := d.files.countP fun r => r.outcome == o

end DirectoryResult

structure BuildReport where
  directories : List DirectoryResult := []
  deriving DecidableEq, Repr

namespace BuildReport

def failures (r : BuildReport) : List FileResult := r.directories.flatMap DirectoryResult.failures

def ok (r : BuildReport) : Bool := r.directories.all DirectoryResult.ok

def count (r : BuildReport) (o : Outcome) : Nat := r.directories.foldl (fun n d => n + d.count o) 0

end BuildReport

end Coursework
