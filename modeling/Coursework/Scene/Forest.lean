import Coursework.Scene.Section

/-!
The nodes of a scene as a store: a node names its parent and its children.

A node that is taken out of the tree keeps its place in the store and its subtree. Nothing here
keeps two parents from listing the same child; what does is said by the laws on single edits.
-/

namespace Coursework.Scene

abbrev NodeId := Nat

/-- The way from a parent to a node may lead through names that the scene does not declare:
`inner` holds them, joined by slashes. `order` lists the header keys as they were read. -/
structure Node where
  name : Text
  type : Text := []
  attributes : Fields Text := []
  order : List Text := []
  properties : Fields Text := []
  groups : List Text := []
  inner : Text := []
  parent : Option NodeId := none
  children : List NodeId := []
  deriving DecidableEq, Repr, Inhabited

namespace Node

def steps (n : Node) : List Text :=
  (if n.inner = [] then [] else Text.splitOn '/' n.inner) ++ [n.name]

def isInstance (n : Node) : Bool := Keyed.has n.attributes "instance" || n.inner != []

def keyOrder (n : Node) : List Text :=
  let kept := n.order.filter fun k => Keyed.has n.attributes k || k == "groups".toList
  let all := kept ++ (Keyed.keys n.attributes).filter fun k => !kept.contains k
  if all.contains "groups".toList then all else all ++ ["groups".toList]

end Node

structure Forest where
  nodes : List Node := []
  deriving DecidableEq, Repr

inductive Forest.Fault
  | rootRemoved (name : Text)
  | notAChild
  | noChildAt
  | endless
  deriving DecidableEq, Repr

def Forest.Fault.message : Forest.Fault → Text
  | .rootRemoved name => "Cannot remove the scene root '" ++ name ++ ['\x27']
  | .notAChild => "list.remove(x): x not in list"
  | .noChildAt => "list index out of range"
  | .endless => "maximum recursion depth exceeded"

/-- The nodes of a subtree, parents before children, as far as a visit gets, and whether the visit
comes to an end. -/
structure Forest.Visit where
  nodes : List NodeId := []
  ends : Bool := true
  deriving DecidableEq, Repr

namespace Forest.Visit

def inOrder (visit : NodeId → Visit) : List NodeId → Visit
  | [] => {}
  | id :: ids =>
    let first := visit id
    if first.ends then
      let rest := inOrder visit ids
      ⟨first.nodes ++ rest.nodes, rest.ends⟩
    else first

def firstOf (test : NodeId → Except Fault Bool) (ends : Bool) :
    List NodeId → Except Fault (Option NodeId)
  | [] => if ends then .ok none else .error .endless
  | id :: ids =>
    match test id with
    | .error e => .error e
    | .ok true => .ok (some id)
    | .ok false => firstOf test ends ids

def first? (v : Visit) (test : NodeId → Except Fault Bool) : Except Fault (Option NodeId) :=
  firstOf test v.ends v.nodes

end Forest.Visit

namespace Forest

def size (f : Forest) : Nat := f.nodes.length

def node (f : Forest) (id : NodeId) : Node := f.nodes[id]?.getD default

def parentOf (f : Forest) (id : NodeId) : Option NodeId := (f.node id).parent

def childrenOf (f : Forest) (id : NodeId) : List NodeId := (f.node id).children

def modify (f : Forest) (id : NodeId) (g : Node → Node) : Forest := ⟨f.nodes.modify id g⟩

def add (f : Forest) (n : Node) : Forest := ⟨f.nodes ++ [n]⟩

theorem node_modify (f : Forest) (id i : NodeId) (g : Node → Node) (h : i < f.size) :
    (f.modify id g).node i = if id = i then g (f.node i) else f.node i := by
  have h' : i < f.nodes.length := h
  by_cases hi : id = i <;> simp [modify, node, h', hi]

theorem size_modify (f : Forest) (id : NodeId) (g : Node → Node) : (f.modify id g).size = f.size := by
  simp [size, modify]

def segmentsWithin (f : Forest) : Nat → NodeId → List Text
  | 0, _ => []
  | depth + 1, id =>
    match f.parentOf id with
    | none => []
    | some p => segmentsWithin f depth p ++ (f.node id).steps

def segments (f : Forest) (id : NodeId) : List Text := f.segmentsWithin f.size id

def pathText (names : List Text) : Text :=
  let s := Text.join ['/'] names
  if s = [] then ['.'] else s

def path (f : Forest) (id : NodeId) : Text := pathText (f.segments id)

def parentPath (f : Forest) (id : NodeId) : Option Text :=
  (f.parentOf id).map fun p =>
    let base := f.path p
    let inner := (f.node id).inner
    if inner = [] then base else if base = ['.'] then inner else base ++ ['/'] ++ inner

def instancedWithin (f : Forest) : Nat → NodeId → Bool
  | 0, _ => false
  | depth + 1, id =>
    (f.node id).isInstance || match f.parentOf id with
      | none => false
      | some p => instancedWithin f depth p

def instanced (f : Forest) (id : NodeId) : Bool := f.instancedWithin f.size id

def risesWithin (f : Forest) : Nat → NodeId → Bool
  | 0, _ => false
  | depth + 1, id =>
    match f.parentOf id with
    | none => true
    | some p => risesWithin f depth p

def rises (f : Forest) (id : NodeId) : Bool :=
  -- a way up that comes to an end meets no node twice
  f.risesWithin f.size id

def way (f : Forest) (id : NodeId) : Except Fault (List Text) :=
  if f.rises id then .ok (f.segments id) else .error .endless

def visitWithin (f : Forest) : Nat → NodeId → Visit
  | 0, _ => ⟨[], false⟩
  | depth + 1, id =>
    let below := Visit.inOrder (visitWithin f depth) (f.childrenOf id)
    ⟨id :: below.nodes, below.ends⟩

def visit (f : Forest) (id : NodeId) : Visit := f.visitWithin f.size id

def walk (f : Forest) (id : NodeId) : List NodeId := (f.visit id).nodes

def subtree (f : Forest) (id : NodeId) : Except Fault (List NodeId) :=
  let v := f.visit id
  if v.ends && v.nodes.all f.rises then .ok v.nodes else .error .endless

def steps (path : Text) : List Text :=
  (Text.splitOn '/' path).filter fun w => w != [] && w != ['.']

def get? (f : Forest) (top : NodeId) (path : Text) : Except Fault (Option NodeId) :=
  match f.way top with
  | .error e => .error e
  | .ok names =>
    (f.visit top).first? fun id => (f.way id).map (· == names ++ steps path)

def find? (f : Forest) (top : NodeId) (name : Text) : Except Fault (Option NodeId) :=
  (f.visit top).first? fun id => .ok ((f.node id).name == name)

def child? (f : Forest) (id : NodeId) (index : Int) : Except Fault (Option NodeId) :=
  let children := f.childrenOf id
  if 0 ≤ index then .ok children[index.toNat]?
  else match children.reverse[(-index - 1).toNat]? with
    | some c => .ok (some c)
    | none => .error .noChildAt

def addChild (f : Forest) (p c : NodeId) : Forest :=
  (f.modify c fun n => { n with parent := some p }).modify p fun n =>
    { n with children := n.children ++ [c] }

def removeChild (f : Forest) (p c : NodeId) : Except Fault Forest :=
  if c ∈ f.childrenOf p then
    .ok ((f.modify p fun n => { n with children := n.children.erase c }).modify c fun n =>
      { n with parent := none, inner := [] })
  else .error .notAChild

def remove (f : Forest) (id : NodeId) : Except Fault Forest :=
  match f.parentOf id with
  | none => .error (.rootRemoved (f.node id).name)
  | some p => f.removeChild p id

def removeEach (f : Forest) (ids : List NodeId) : Forest :=
  ids.foldl (fun f id => (f.remove id).toOption.getD f) f

def inGroup (f : Forest) (group : Text) (id : NodeId) : Bool := (f.node id).groups.contains group

def addGroup (f : Forest) (group : Text) (id : NodeId) : Forest :=
  if f.inGroup group id then f
  else f.modify id fun n => { n with groups := n.groups ++ [group] }

def removeGroup (f : Forest) (group : Text) (id : NodeId) : Forest :=
  f.modify id fun n => { n with groups := n.groups.erase group }

def takeGroup (f : Forest) (group : Text) (ids : List NodeId) : Forest :=
  ids.foldl (fun f id => f.removeGroup group id) f

def stripGroup (f : Forest) (group : Text) (top : NodeId) : Forest :=
  f.takeGroup group (f.walk top)

def entriesOf (f : Forest) (group : Text) : Nat :=
  f.nodes.foldl (fun n m => max n (m.groups.count group)) 0

def stripGroupEndlessly (f : Forest) (group : Text) (top : NodeId) : Forest :=
  f.takeGroup group (f.visitWithin (f.size * (f.entriesOf group + 1)) top).nodes

def visitAll (visit : Forest → NodeId → Forest × Except Fault (List Text)) :
    Forest → List NodeId → Forest × Except Fault (List Text)
  | f, [] => (f, .ok [])
  | f, id :: ids =>
    match visit f id with
    | (g, .error e) => (g, .error e)
    | (g, .ok ps) =>
      match visitAll visit g ids with
      | (h, r) => (h, (ps ++ ·) <$> r)

def removeMembersWithin (group : Text) :
    Nat → Forest → NodeId → Forest × Except Fault (List Text)
  | 0, f, _ => (f, .error .endless)
  | depth + 1, f, id =>
    if f.inGroup group id then
      if !f.rises id then (f, .error .endless)
      else match f.remove id with
      | .error e => (f, .error e)
      | .ok g =>
        match visitAll (removeMembersWithin group depth) g (g.childrenOf id) with
        | (h, r) => (h, (f.path id :: ·) <$> r)
    else visitAll (removeMembersWithin group depth) f (f.childrenOf id)

/-- Removes the nodes of a group below a node and answers with the path that each had when it
was removed. Between two removals a way down that comes to an end meets no node twice, and no node
is removed twice. -/
def removeMembers (f : Forest) (group : Text) (top : NodeId) : Forest × Except Fault (List Text) :=
  removeMembersWithin group (f.size * (f.size + 1)) f top

def sectionOf (f : Forest) (id : NodeId) : Section :=
  let n := f.node id
  let first : Fields Text := [("name", quote n.name)]
  let typed := if n.type = [] then first else Keyed.set first "type" (quote n.type)
  let placed := match f.parentPath id with
    | none => typed
    | some p => Keyed.set typed "parent" (quote p)
  let put (fields : Fields Text) (key : Text) : Fields Text :=
    if key = "groups" then
      if n.groups = [] then fields else Keyed.set fields "groups" (writeStrings n.groups)
    else match Keyed.get? n.attributes key with
      | some v => Keyed.set fields key v
      | none => fields
  ⟨"node", n.keyOrder.foldl put placed, n.properties⟩

end Forest

end Coursework.Scene
