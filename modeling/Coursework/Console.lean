import Coursework.Build.Report
import Coursework.Text.Markup

namespace Coursework

inductive Console.Item
  | line (markup : Text)
  | panel (markup border : Text)
  | table (title : Text) (columns : List Text) (rows : List (List Text × Option Text))
  deriving DecidableEq, Repr

abbrev Console := List Console.Item

namespace Console

def styled (style s : Text) : Text := ['['] ++ style ++ [']'] ++ s ++ ['[', '/'] ++ style ++ [']']

end Console

namespace Outcome

def style : Outcome → Text
  | .skip => "dim"
  | .copy => "cyan"
  | .process => "green"
  | .diff => "magenta"
  | .fail => "red"

def label (o : Outcome) : Text := Text.padLeft 8 (o.text.map Char.toUpper)

def heading (o : Outcome) : Text :=
  match o.text with
  | [] => []
  | c :: s => c.toUpper :: s

end Outcome

def Path.seenFrom (project p : Path) : Text :=
  match p.relativeTo project with
  | .ok q => q.text
  | .error _ => p.text

def FileResult.lines (project : Path) (verbose : Bool) (r : FileResult) : Console :=
  if r.outcome = .skip ∧ verbose = false then []
  else
    .line (Console.styled r.outcome.style r.outcome.label ++ [' '] ++
      Text.escapeMarkup (Path.seenFrom project r.source)) ::
    (if r.message = [] then []
    else [.line (List.replicate 9 ' ' ++ Console.styled "red" (Text.escapeMarkup r.message))])

def DirectoryResult.lines (project : Path) (verbose : Bool) (d : DirectoryResult) : Console :=
  d.files.flatMap (FileResult.lines project verbose)

def BuildReport.lines (project : Path) (verbose : Bool) (r : BuildReport) : Console :=
  r.directories.flatMap (DirectoryResult.lines project verbose)

def BuildReport.table (r : BuildReport) : Console.Item :=
  .table "Practice build" ("Exercise" :: Outcome.all.map Outcome.heading)
    (r.directories.map fun d =>
      (d.directory.name :: Outcome.all.map fun o => Text.decimal (d.count o),
        if d.ok then none else some "red"))

def BuildReport.summary (r : BuildReport) : Console :=
  r.table ::
  match r.failures with
  | [] => [.line (['\n'] ++ Console.styled "green" "OK")]
  | fs =>
    .line (['\n'] ++ "[bold red]" ++ Text.decimal fs.length ++ " file(s) failed:[/bold red]") ::
    fs.flatMap fun f =>
      [.line ("  - " ++ f.source.text),
        .line ("    " ++ Console.styled "red" (Text.escapeMarkup f.message))]

end Coursework
