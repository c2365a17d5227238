import Coursework.Glob
import Coursework.Path

namespace Coursework

namespace Selection

def defaultExcludes : List Text :=
  ["test_*", "*_test.*", "diff.py", "*.import", "*.uid", "*.pyc"]

structure Excludes where
  patterns : List Text := defaultExcludes
  complete : Bool := true
  deriving DecidableEq, Repr

def cacheDirectories : List Text := ["__pycache__", ".godot", ".import"]

def excluded (excludes : List Text) (name : Text) : Bool := excludes.any fun p => Glob.fits p name

def picks (pattern : Text) (relative : Path) : Bool :=
  Glob.fits pattern relative.text || Glob.fits pattern relative.name

def picks? (pattern : Option Text) (relative : Path) : Bool :=
  match pattern with
  | none => true
  | some p => p.isEmpty || picks p relative

def selects (excludes : List Text) (pattern : Option Text) (relative : Path) : Bool :=
  !(relative.parts.dropLast.any fun d => cacheDirectories.contains d) &&
    !excluded excludes relative.name && picks? pattern relative

end Selection

end Coursework
