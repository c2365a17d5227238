import Coursework.Scene.Forest
import Coursework.Text.Utf8

namespace Coursework

/-- `declared` holds the node paths of the text that the scene was read from. -/
structure Scene where
  preamble : List Scene.Section := []
  forest : Scene.Forest := {}
  root : Option Scene.NodeId := none
  trailing : List Scene.Section := []
  declared : List Text := []
  deriving DecidableEq, Repr

namespace Scene

inductive Fault
  | sections (e : Section.Fault)
  | unnamedNode
  | secondRoot
  | nodeBeforeRoot (name : Text)
  | parentNotFound (parent name : Text)
  | noRoot
  | notText (e : Utf8.Fault)
  deriving DecidableEq, Repr

def Fault.message (source : Text) : Fault → Text
  | .sections e => e.message source
  | .unnamedNode => source ++ ": node section without a name"
  | .secondRoot => source ++ ": more than one root node"
  | .nodeBeforeRoot name => source ++ ": node '" ++ name ++ "' appears before the root"
  | .parentNotFound parent name =>
    source ++ ": parent '" ++ parent ++ "' of node '" ++ name ++ "' not found"
  | .noRoot => source ++ ": scene has no root node"
  | .notText e => source ++ ": not a text scene (" ++ e.message ++ ")"

inductive Defect
  | noRoot
  | endless
  deriving DecidableEq, Repr

def Defect.message : Defect → Text
  | .noRoot => "Cannot serialize a scene without a root node"
  | .endless => Forest.Fault.endless.message

def nodeKeys : List Text := ["name", "type", "parent"]

def nodeOf? (s : Section) : Option Node :=
  (Keyed.get? s.attributes "name").map fun name =>
    { name := unquote name
      type := unquote ((Keyed.get? s.attributes "type").getD ['\x22', '\x22'])
      attributes := s.attributes.filter fun a => !nodeKeys.contains a.1 && a.1 != "groups".toList
      order := (Keyed.keys s.attributes).filter fun k => !nodeKeys.contains k
      properties := s.properties
      groups := readStrings ((Keyed.get? s.attributes "groups").getD ['[', ']']) }

abbrev Paths := Fields NodeId

/-- Where a node with the given parent path goes: below the node with that path, or below the
nearest declared ancestor if that is instanced. The names are tried from the longest beginning of
the path on; the second component is the rest of the path. -/
def ancestorFrom (f : Forest) (paths : Paths) (names : List Text) :
    Nat → Option (NodeId × Text)
  | 0 => answer 0
  | cut + 1 =>
    match Keyed.get? paths (Forest.pathText (names.take (cut + 1))) with
    | some _ => answer (cut + 1)
    | none => ancestorFrom f paths names cut
where
  answer (cut : Nat) : Option (NodeId × Text) :=
    (Keyed.get? paths (Forest.pathText (names.take cut))).bind fun id =>
      if f.instanced id then some (id, Text.join ['/'] (names.drop cut)) else none

def parentFor (f : Forest) (paths : Paths) (parent : Text) : Option (NodeId × Text) :=
  match Keyed.get? paths parent with
  | some id => some (id, [])
  | none =>
    let names := Text.splitOn '/' parent
    ancestorFrom f paths names (names.length - 1)

structure Progress where
  scene : Scene := {}
  paths : Paths := []

def Progress.place (p : Progress) (n : Node) (below : Option (NodeId × Text)) : Progress :=
  let id := p.scene.forest.size
  match below with
  | none =>
    ⟨{ p.scene with forest := p.scene.forest.add n, root := some id },
      Keyed.set p.paths ['.'] id⟩
  | some (parent, inner) =>
    let f := (p.scene.forest.add { n with inner := inner }).addChild parent id
    ⟨{ p.scene with forest := f }, Keyed.set p.paths (f.path id) id⟩

def Progress.step (p : Progress) (s : Section) : Except Fault Progress :=
  if s.tag ≠ "node".toList then
    .ok (if p.paths = [] then
      { p with scene := { p.scene with preamble := p.scene.preamble ++ [s] } }
    else { p with scene := { p.scene with trailing := p.scene.trailing ++ [s] } })
  else match nodeOf? s with
    | none => .error .unnamedNode
    | some n =>
      match Keyed.get? s.attributes "parent", p.scene.root with
      | none, none => .ok (p.place n none)
      | none, some _ => .error .secondRoot
      | some _, none => .error (.nodeBeforeRoot n.name)
      | some raw, some _ =>
        let parent := unquote raw
        match parentFor p.scene.forest p.paths parent with
        | some below => .ok (p.place n (some below))
        | none => .error (.parentNotFound parent n.name)

def ofSections (sections : List Section) : Except Fault Scene := do
  let p ← sections.foldlM Progress.step {}
  match p.scene.root with
  | none => .error .noRoot
  | some _ => .ok { p.scene with declared := Keyed.keys p.paths }

def read (s : Text) : Except Fault Scene :=
  match Section.readAll s with
  | .error e => .error (.sections e)
  | .ok sections => ofSections sections

def nodes (s : Scene) : Except Defect (List NodeId) :=
  match s.root with
  | none => .error .noRoot
  | some r => match s.forest.subtree r with
    | .ok ids => .ok ids
    | .error _ => .error .endless

def sectionsText (sections : List Section) : Text :=
  Text.join ['\n', '\n'] (sections.map Section.text) ++ ['\n']

def sectionsOf (s : Scene) (ids : List NodeId) : List Section :=
  s.preamble ++ ids.map s.forest.sectionOf ++ s.trailing

def text (s : Scene) : Except Defect Text :=
  s.nodes.map fun ids => sectionsText (s.sectionsOf ids)

def lost (declared current : List Text) (target : Text) : Bool :=
  let names := Forest.steps (unquote target)
  (List.range names.length).any fun n =>
    let p := Text.join ['/'] (names.take (n + 1))
    declared.contains p && !current.contains p

def dangling (declared current : List Text) (s : Section) : Bool :=
  s.tag == "connection".toList &&
    (["from", "to"].any fun key =>
      match Keyed.get? s.attributes (String.toList key) with
      | none => false
      | some target => lost declared current target)

def pruneConnections (s : Scene) : Except Defect Scene :=
  s.nodes.map fun ids =>
    let current := ids.map s.forest.path
    { s with trailing := s.trailing.filter fun t => !dangling s.declared current t }

end Scene

end Coursework
