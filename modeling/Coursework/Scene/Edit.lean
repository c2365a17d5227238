import Coursework.Json.Basic
import Coursework.Scene.Basic

namespace Coursework.Scene

inductive Action
  | get (path : Text)
  | find (name : Text)
  | child (index : Int)
  | parent
  | walk
  | describe
  | describeAll
  | section_
  | inGroup (group : Text)
  | addChild (child : Text)
  | removeChild (child : Text)
  | remove
  | setProperty (key value : Text)
  | deleteProperty (key : Text)
  | setAttribute (key value : Text)
  | deleteAttribute (key : Text)
  | rename (name : Text)
  | setType (type : Text)
  | addGroup (group : Text)
  | removeGroup (group : Text)
  | stripGroup (group : Text)
  | removeMembers (group : Text)
  deriving DecidableEq, Repr

inductive Edit
  | act (on result : Text) (action : Action)
  | create (result : Text) (node : Node)
  | raise (message : Text)
  deriving DecidableEq, Repr

inductive Edit.Fault
  | noNode (name : Text)
  | tree (e : Forest.Fault)
  | raised (message : Text)
  deriving DecidableEq, Repr

def Edit.Fault.message : Edit.Fault → Text
  | .noNode name => "no node in '" ++ name ++ ['\x27']
  | .tree e => e.message
  | .raised m => m

structure Description where
  name : Text
  type : Text
  path : Text
  parentPath : Option Text
  inner : Text
  instanced : Bool
  groups : List Text
  attributes : Fields Text
  properties : Fields Text
  children : List Text
  deriving DecidableEq, Repr

inductive Answer
  | nothing
  | path (p : Option Text)
  | paths (ps : List Text)
  | flag (b : Bool)
  | section_ (s : Section)
  | description (d : Description)
  | descriptions (ds : List Description)
  deriving DecidableEq, Repr

def Forest.describe (f : Forest) (id : NodeId) : Description :=
  let n := f.node id
  { name := n.name, type := n.type, path := f.path id, parentPath := f.parentPath id
    inner := n.inner, instanced := f.instanced id, groups := n.groups
    attributes := n.attributes, properties := n.properties
    children := n.children.map fun c => (f.node c).name }

structure Session where
  forest : Forest
  names : Fields (Option NodeId)
  deriving DecidableEq, Repr

namespace Session

def start (s : Scene) : Session := ⟨s.forest, [("root", s.root)]⟩

def node? (s : Session) (name : Text) : Except Edit.Fault NodeId :=
  match Keyed.get? s.names name with
  | some (some id) => .ok id
  | _ => .error (.noNode name)

def pathOf (s : Session) (id : NodeId) : Except Edit.Fault Answer :=
  if s.forest.rises id then .ok (.path (some (s.forest.path id))) else .error (.tree .endless)

def named (s : Session) (name : Text) :
    Except Forest.Fault (Option NodeId) → Session × Except Edit.Fault Answer
  | .error e => (s, .error (.tree e))
  | .ok found =>
    let t := { s with names := Keyed.set s.names name found }
    (t, match found with
      | none => .ok (.path none)
      | some id => t.pathOf id)

def told (s : Session) (id : NodeId) (a : Answer) : Session × Except Edit.Fault Answer :=
  (s, if s.forest.rises id then .ok a else .error (.tree .endless))

def toldOfAll (s : Session) (id : NodeId) (a : List NodeId → Answer) :
    Session × Except Edit.Fault Answer :=
  (s, match s.forest.subtree id with
    | .ok ids => .ok (a ids)
    | .error e => .error (.tree e))

def modified (s : Session) (id : NodeId) (g : Node → Node) : Session × Answer :=
  ({ s with forest := s.forest.modify id g }, .nothing)

def replaced (s : Session) (f : Forest) : Session × Answer := ({ s with forest := f }, .nothing)

def ofForest (s : Session) : Except Forest.Fault Forest → Session × Except Edit.Fault Answer
  | .ok f => ({ s with forest := f }, .ok .nothing)
  | .error e => (s, .error (.tree e))

def act (s : Session) (id : NodeId) (result : Text) (action : Action) :
    Session × Except Edit.Fault Answer :=
  let f := s.forest
  let ok : Session × Answer → Session × Except Edit.Fault Answer := fun r => (r.1, .ok r.2)
  match action with
  | .get path => s.named result (f.get? id path)
  | .find name => s.named result (f.find? id name)
  | .child index => s.named result (f.child? id index)
  | .parent => s.named result (.ok (f.parentOf id))
  | .walk => s.toldOfAll id fun ids => .paths (ids.map f.path)
  | .describe => s.told id (.description (f.describe id))
  | .describeAll => s.toldOfAll id fun ids => .descriptions (ids.map f.describe)
  | .section_ => s.told id (.section_ (f.sectionOf id))
  | .inGroup group => (s, .ok (.flag (f.inGroup group id)))
  | .addChild child =>
    match s.node? child with
    | .error fault => (s, .error fault)
    | .ok c =>
      let t := { s with forest := f.addChild id c }
      (t, t.pathOf c)
  | .removeChild child =>
    match s.node? child with
    | .error fault => (s, .error fault)
    | .ok c => s.ofForest (f.removeChild id c)
  | .remove => s.ofForest (f.remove id)
  | .setProperty key value =>
    ok (s.modified id fun n => { n with properties := Keyed.set n.properties key value })
  | .deleteProperty key =>
    ok (s.modified id fun n => { n with properties := Keyed.erase n.properties key })
  | .setAttribute key value =>
    ok (s.modified id fun n => { n with attributes := Keyed.set n.attributes key value })
  | .deleteAttribute key =>
    ok (s.modified id fun n => { n with attributes := Keyed.erase n.attributes key })
  | .rename name => ok (s.modified id fun n => { n with name := name })
  | .setType type => ok (s.modified id fun n => { n with type := type })
  | .addGroup group => ok (s.replaced (f.addGroup group id))
  | .removeGroup group => ok (s.replaced (f.removeGroup group id))
  | .stripGroup group =>
    if (f.visit id).ends then ok (s.replaced (f.stripGroup group id))
    else ({ s with forest := f.stripGroupEndlessly group id }, .error (.tree .endless))
  | .removeMembers group =>
    match f.removeMembers group id with
    | (g, .ok ps) => ({ s with forest := g }, .ok (.paths ps))
    | (g, .error fault) => ({ s with forest := g }, .error (.tree fault))

def run (s : Session) : Edit → Session × Except Edit.Fault Answer
  | .create result n =>
    { s with forest := s.forest.add n }.named result (.ok (some s.forest.size))
  | .raise message => (s, .error (.raised message))
  | .act on result action =>
    match s.node? on with
    | .error fault => (s, .error fault)
    | .ok id => s.act id result action

def runAll (s : Session) : List Edit → Session × Option Edit.Fault
  | [] => (s, none)
  | e :: es =>
    match s.run e with
    | (t, .ok _) => runAll t es
    | (t, .error fault) => (t, some fault)

end Session

def Action.reads : Action → Bool
  | .get _ | .find _ | .child _ | .parent | .walk | .describe | .describeAll | .section_
  | .inGroup _ => true
  | _ => false

def Edit.reads : Edit → Bool
  | .act _ _ action => action.reads
  | .create .. => true
  | .raise _ => false

def textField (j : Json) (key : Text) : Text := ((j.field? key).bind Json.text?).getD []

def textList (j : Json) (key : Text) : List Text :=
  (((j.field? key).bind Json.list?).getD []).filterMap Json.text?

def pairs (j : Json) (key : Text) : Fields Text :=
  Keyed.ofList <| (((j.field? key).bind Json.list?).getD []).filterMap fun
    | .list [.text k, .text v] => some (k, v)
    | _ => none

def Action.ofJson? (j : Json) : Option Action :=
  let key := textField j "key"
  let value := textField j "value"
  let name := textField j "name"
  let group := textField j "group"
  let child := textField j "child"
  match String.ofList (textField j "do") with
  | "get" => some (.get (textField j "path"))
  | "find" => some (.find name)
  | "child" => some (.child (((j.field? "index").bind Json.whole?).getD 0))
  | "parent" => some .parent
  | "walk" => some .walk
  | "describe" => some .describe
  | "tree" => some .describeAll
  | "section" => some .section_
  | "in_group" => some (.inGroup group)
  | "add_child" => some (.addChild child)
  | "remove_child" => some (.removeChild child)
  | "remove" => some .remove
  | "set_prop" => some (.setProperty key value)
  | "del_prop" => some (.deleteProperty key)
  | "set_attr" => some (.setAttribute key value)
  | "del_attr" => some (.deleteAttribute key)
  | "rename" => some (.rename name)
  | "set_type" => some (.setType (textField j "type"))
  | "add_group" => some (.addGroup group)
  | "remove_group" => some (.removeGroup group)
  | "strip_group" => some (.stripGroup group)
  | "remove_group_nodes" => some (.removeMembers group)
  | _ => none

def Edit.ofJson? (j : Json) : Option Edit :=
  let result := ((j.field? "as").bind Json.text?).getD "it"
  match String.ofList (textField j "do") with
  | "new" => some (.create result
      { name := textField j "name", type := textField j "type"
        attributes := pairs j "attributes", properties := pairs j "properties"
        groups := textList j "groups" })
  | "raise" => some (.raise (textField j "message"))
  | _ => (Action.ofJson? j).map (.act (((j.field? "on").bind Json.text?).getD "root") result)

end Coursework.Scene
