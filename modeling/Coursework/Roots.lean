import Coursework.Path

namespace Coursework

structure Roots where
  project : Path
  solutions : Path
  practices : Path
  solutionsReference : Text
  practicesReference : Text
  deriving DecidableEq, Repr

namespace Roots

def ofNames (project : Path) (solutionsName practicesName scheme : Text) : Roots where
  project := project
  solutions := project ++ Path.ofText solutionsName
  practices := project ++ Path.ofText practicesName
  solutionsReference := scheme ++ solutionsName ++ ['/']
  practicesReference := scheme ++ practicesName ++ ['/']

def practiceOf (r : Roots) (p : Path) : Except Path.NotBelow Path :=
  (r.practices ++ ·) <$> p.relativeTo r.solutions

def solutionOf (r : Roots) (p : Path) : Except Path.NotBelow Path :=
  (r.solutions ++ ·) <$> p.relativeTo r.practices

def redirect (r : Roots) (s : Text) : Text :=
  Text.replace r.solutionsReference r.practicesReference s

end Roots

end Coursework
