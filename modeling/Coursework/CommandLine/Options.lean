import Coursework.Text.Blank
import Coursework.Text.Word

namespace Coursework.CommandLine

inductive Switch
  | help
  | project
  | verbose
  | force
  | pattern
  | watch
  | output
  | disablePlugins
  deriving DecidableEq, Repr

def Switch.takesValue : Switch → Bool
  | .project | .pattern | .output => true
  | _ => false

abbrev Spellings := List (Text × Switch)

def programSpellings : Spellings :=
  [("-h", .help), ("--help", .help), ("--project", .project), ("-v", .verbose),
    ("--verbose", .verbose)]

inductive CommandName
  | practices
  | workbook
  | solutions
  deriving DecidableEq, Repr

namespace CommandName

def text : CommandName → Text
  | .practices => "practices"
  | .workbook => "workbook"
  | .solutions => "solutions"

def ofText? (s : Text) : Option CommandName :=
  [practices, workbook, solutions].find? fun c => c.text == s

def spellings : CommandName → Spellings
  | .practices =>
    [("-h", .help), ("--help", .help), ("-f", .force), ("--force", .force),
      ("--pattern", .pattern), ("--watch", .watch)]
  | _ =>
    [("-h", .help), ("--help", .help), ("-o", .output), ("--output", .output),
      ("--disable-plugins", .disablePlugins)]

end CommandName

inductive Exit
  | usage
  | help
  deriving DecidableEq, Repr

def Exit.code : Exit → Nat
  | .usage => 2
  | .help => 0

inductive Word
  | argument
  | long (o : Switch) (value : Option Text)
  | short (o : Switch) (attached : Option Text)
  | unknown
  | separator
  deriving DecidableEq, Repr

def spelled? (known : Spellings) (s : Text) : Option Switch :=
  (known.find? fun k => k.1 == s).map Prod.snd

def cutEquals (s : Text) : Text × Option Text :=
  match s.dropWhile (· != '=') with
  | [] => (s, none)
  | _ :: v => (s.takeWhile (· != '='), some v)

def isNegativeNumber (s : Text) : Bool :=
  match s with
  | '-' :: r =>
    let whole := r.takeWhile Text.isDecimalDigit
    match Text.oneLine? (r.dropWhile Text.isDecimalDigit) with
    | some [] => whole != []
    | some ('.' :: places) => places != [] && places.all Text.isDecimalDigit
    | _ => false
  | _ => false

def leftover (s : Text) : Word :=
  if isNegativeNumber s || s.contains ' ' then .argument else .unknown

def classifyLong (known : Spellings) (s : Text) : Except Exit Word :=
  let (name, value) := cutEquals s
  match spelled? known name with
  | some o => .ok (.long o value)
  | none =>
    match known.filter fun k => Text.startsWith k.1 name with
    | [] => .ok (leftover s)
    | [k] => .ok (.long k.2 value)
    | _ => .error .usage

def attachedTo : Text → Option Text
  | [] => none
  | '=' :: s => some s
  | s => some s

def classify (known : Spellings) (s : Text) : Except Exit Word :=
  match s with
  | '-' :: '-' :: _ => classifyLong known s
  | '-' :: c :: r =>
    match spelled? known ['-', c] with
    | some o => .ok (.short o (attachedTo r))
    | none => .ok (leftover s)
  | _ => .ok .argument

def classifyAll (known : Spellings) : List Text → Except Exit (List (Text × Word))
  | [] => .ok []
  | s :: ss =>
    if s = ['-', '-'] then .ok ((s, .separator) :: ss.map fun w => (w, .argument))
    else do
      let w ← classify known s
      let ws ← classifyAll known ss
      return (s, w) :: ws

inductive Value
  | text (s : Text)
  | empty
  deriving DecidableEq, Repr

def Value.ofText (s : Text) : Value := if s = ['-', '-'] then .empty else .text s

def Value.text? : Value → Option Text
  | .text s => some s
  | .empty => none

abbrev Effect := Switch × Option Value

abbrev Words := List (Text × Word)

def takePlain (o : Switch) (words : Words) : Except Exit (List Effect × Words) :=
  if o.takesValue then
    match words with
    | (s, .argument) :: rest => .ok ([(o, some (.ofText s))], rest)
    | _ => .error .usage
  else .ok ([(o, none)], words)

def takeAttached (known : Spellings) (words : Words) :
    Switch → Text → Except Exit (List Effect × Words)
  | o, [] => if o.takesValue then .ok ([(o, some (.text []))], words) else .error .usage
  | o, c :: s =>
    if o.takesValue then .ok ([(o, some (.ofText (c :: s)))], words)
    else match spelled? known ['-', c] with
      | none => .error .usage
      | some next => do
        let (es, rest) ← if s = [] then takePlain next words else takeAttached known words next s
        return ((o, none) :: es, rest)

def takeShort (known : Spellings) (o : Switch) (attached : Option Text) (words : Words) :
    Except Exit (List Effect × Words) :=
  match attached with
  | none => takePlain o words
  | some s => takeAttached known words o s

def takeLong (o : Switch) (value : Option Text) (words : Words) :
    Except Exit (List Effect × Words) :=
  match value with
  | none => takePlain o words
  | some v => if o.takesValue then .ok ([(o, some (.ofText v))], words) else .error .usage

def takeWord (known : Spellings) (w : Word) (words : Words) :
    Except Exit (List Effect × Bool × Words) :=
  match w with
  | .long o value => do
    let (es, rest) ← takeLong o value words
    return (es, false, rest)
  | .short o attached => do
    let (es, rest) ← takeShort known o attached words
    return (es, false, rest)
  | _ => .ok ([], true, words)

def Word.isOption : Word → Bool
  | .long .. | .short .. | .unknown => true
  | _ => false

def takeOptions (known : Spellings) : Nat → Words → Except Exit (List Effect × Bool × Words)
  | 0, words => .ok ([], false, words)
  | _, [] => .ok ([], false, [])
  | fuel + 1, (s, w) :: words =>
    if w.isOption then do
      let (es, left, rest) ← takeWord known w words
      if es.any (fun e => e.1 == .help) then .error .help
      else
        let (fs, left', rest) ← takeOptions known fuel rest
        return (es ++ fs, left || left', rest)
    else .ok ([], false, (s, w) :: words)

def takeAll (known : Spellings) : Nat → Words → Except Exit (List Effect × Bool)
  | 0, _ => .ok ([], false)
  | fuel + 1, words => do
    let (es, left, rest) ← takeOptions known (words.length + 1) words
    match rest with
    | [] => return (es, left)
    | _ :: rest =>
      let (fs, _) ← takeAll known fuel rest
      return (es ++ fs, true)

def valueOf (es : List Effect) (o : Switch) : Option Value :=
  (es.reverse.find? fun e => e.1 == o).bind Prod.snd

def mentions (es : List Effect) (o : Switch) : Bool := es.any fun e => e.1 == o

inductive Command
  | practices (force : Bool) (pattern : Option Value) (watch : Bool)
  | workbook (output : Value) (disablePlugins : Bool)
  | solutions (output : Value) (disablePlugins : Bool)
  deriving DecidableEq, Repr

structure Arguments where
  project : Value := .text ['.']
  verbose : Bool := false
  command : Option Command := none
  deriving DecidableEq, Repr

def CommandName.command (name : CommandName) (es : List Effect) : Except Exit Command :=
  match name with
  | .practices =>
    .ok (.practices (mentions es .force) (valueOf es .pattern) (mentions es .watch))
  | .workbook => match valueOf es .output with
    | some output => .ok (.workbook output (mentions es .disablePlugins))
    | none => .error .usage
  | .solutions => match valueOf es .output with
    | some output => .ok (.solutions output (mentions es .disablePlugins))
    | none => .error .usage

def readCommand (name : Text) (args : List Text) : Except Exit Command :=
  match CommandName.ofText? name with
  | none => .error .usage
  | some c => do
    let words ← classifyAll c.spellings args
    let (es, left) ← takeAll c.spellings (words.length + 1) words
    let command ← c.command es
    if left then .error .usage else return command

def read (args : List Text) : Except Exit Arguments := do
  let words ← classifyAll programSpellings args
  let (es, left, rest) ← takeOptions programSpellings (words.length + 1) words
  let command ← match rest with
    | [] => pure none
    | (name, _) :: rest => some <$> readCommand name (rest.map Prod.fst)
  if left then .error .usage
  else return ⟨(valueOf es .project).getD (.text ['.']), mentions es .verbose, command⟩

end Coursework.CommandLine
