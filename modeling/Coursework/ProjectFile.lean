import Coursework.Text.Blank

namespace Coursework

structure ProjectFile.Block where
  name : Text
  lines : List Text := []
  deriving DecidableEq, Repr

structure ProjectFile where
  blocks : List ProjectFile.Block
  deriving DecidableEq, Repr

namespace ProjectFile

def header? : Text → Option Text
  | '[' :: s =>
    let name := s.takeWhile (· != ']')
    match s.dropWhile (· != ']') with
    | _ :: rest => if name ≠ [] ∧ Text.blank rest then some name else none
    | [] => none
  | _ => none

def keyValue? (line : Text) : Option (Text × Text) :=
  match line with
  | [] => none
  | c :: _ =>
    if Text.isBlank c || c == '=' || c == ';' then none
    else match line.dropWhile (· != '=') with
      | [] => none
      | _ :: v => (Text.oneLine? v).map fun v => (line.takeWhile (· != '='), v)

def entryText (key value : Text) : Text := key ++ ['='] ++ value

def hasKey (key line : Text) : Bool := (keyValue? line).any fun e => e.1 == key

def addLine (blocks : List Block) (line : Text) : List Block :=
  match header? line with
  | some name => blocks ++ [⟨name, [line]⟩]
  | none => match blocks.getLast? with
    | none => [⟨[], [line]⟩]
    | some b => blocks.dropLast ++ [⟨b.name, b.lines ++ [line]⟩]

def read (s : Text) : ProjectFile := ⟨(Text.lines s).foldl addLine [⟨[], []⟩]⟩

def text (p : ProjectFile) : Text :=
  Text.dropEndWhile (· == '\n') (Text.join ['\n'] (p.blocks.flatMap Block.lines)) ++ ['\n']

namespace Block

def keyIndex? (b : Block) (key : Text) : Option Nat := b.lines.findIdx? (hasKey key)

def value? (b : Block) (key : Text) : Option Text := do
  let i ← b.keyIndex? key
  let line ← b.lines[i]?
  let e ← keyValue? line
  return e.2

def withoutBlankEnd (ls : List Text) : List Text := (ls.reverse.dropWhile Text.blank).reverse

def insertionPoint : List Text → Nat
  | [] => 0
  | _ :: ls => (withoutBlankEnd ls).length + 1

def setValue (b : Block) (key value : Text) : Block :=
  match b.keyIndex? key with
  | some i => ⟨b.name, b.lines.set i (entryText key value)⟩
  | none =>
    let i := insertionPoint b.lines
    ⟨b.name, b.lines.take i ++ entryText key value :: b.lines.drop i⟩

end Block

def block? (p : ProjectFile) (name : Text) : Option Block := p.blocks.find? (·.name == name)

def hasBlock (p : ProjectFile) (name : Text) : Bool := (p.block? name).isSome

def changeBlock (name : Text) (change : Block → Block) : List Block → List Block
  | [] => []
  | b :: bs => if b.name = name then change b :: bs else b :: changeBlock name change bs

def removeBlock (p : ProjectFile) (name : Text) : ProjectFile × Bool :=
  (⟨p.blocks.eraseP (·.name == name)⟩, p.hasBlock name)

def value? (p : ProjectFile) (name key : Text) : Option Text :=
  (p.block? name).bind (·.value? key)

def keyIndex? (p : ProjectFile) (name key : Text) : Option Nat :=
  (p.block? name).bind (·.keyIndex? key)

def setValue (p : ProjectFile) (name key value : Text) : ProjectFile :=
  let blocks := if p.hasBlock name then p.blocks else p.blocks ++ [⟨name, [['['] ++ name ++ [']']]⟩]
  ⟨changeBlock name (·.setValue key value) blocks⟩

def removeKey (p : ProjectFile) (name key : Text) : ProjectFile × Bool :=
  match p.keyIndex? name key with
  | none => (p, false)
  | some i => (⟨changeBlock name (fun b => ⟨b.name, b.lines.eraseIdx i⟩) p.blocks⟩, true)

def pluginBlocks : List Text := ["editor_plugins", "autoload"]

def stripPlugins (p : ProjectFile) : ProjectFile × List Text :=
  pluginBlocks.foldl (fun (q, removed) name =>
    match q.removeBlock name with
    | (r, true) => (r, removed ++ [name])
    | (r, false) => (r, removed)) (p, [])

def plainName (value : Text) : Text :=
  let s := Text.trim value
  if 2 ≤ s.length ∧ s.head? = some '\x22' ∧ s.getLast? = some '\x22' then (s.drop 1).dropLast
  else s

def tagName (p : ProjectFile) (tag : Text) : ProjectFile × Option Text :=
  match p.value? "application" "config/name" with
  | none => (p, none)
  | some value =>
    let name := plainName value ++ [' ', '('] ++ tag ++ [')']
    (p.setValue "application" "config/name" (['\x22'] ++ name ++ ['\x22']), some name)

def removeMainScene (p : ProjectFile) : ProjectFile × Bool :=
  p.removeKey "application" "run/main_scene"

end ProjectFile

end Coursework
