import Coursework.Scene.Edit
import Coursework.Scene.Predefined

/-!
Scripts that turn solution scenes into practice scenes.

A script is a list of members, each of which binds a name or takes a binding away. The names that
end up bound to a function of the script are the scenes that it knows how to edit; a name with an
underscore in front is private.
-/

namespace Coursework.Scene

inductive Script.Member
  | function (name : Text) (steps : List Edit)
  | copy (name source : Text)
  | other (name : Text)
  | delete (name : Text)
  | raise (message : Text)
  deriving DecidableEq, Repr

abbrev Script := List Script.Member

namespace Script

inductive Binding
  | function (steps : List Edit)
  | self
  | other
  deriving DecidableEq, Repr

def start : Fields Binding :=
  attributes.map fun name => (name, if name = selfName then .self else .other)

def made (names : Fields Binding) (steps : List Edit) : Binding :=
  if Keyed.get? names selfName = some .self then .function steps else .other

inductive Fault
  | undefinedName (name : Text)
  | raised (message : Text)
  deriving DecidableEq, Repr

def Fault.message : Fault → Text
  | .undefinedName name => "name '" ++ name ++ "' is not defined"
  | .raised m => m

def Member.bind (names : Fields Binding) : Member → Except Fault (Fields Binding)
  | .function name steps => .ok (Keyed.set names name (made names steps))
  | .other name => .ok (Keyed.set names name .other)
  | .copy name source =>
    match Keyed.get? names source with
    | some b => .ok (Keyed.set names name b)
    | none =>
      if predefined.contains source then .ok (Keyed.set names name .other)
      else .error (.undefinedName source)
  | .delete name =>
    if Keyed.has names name then .ok (Keyed.erase names name) else .error (.undefinedName name)
  | .raise m => .error (.raised m)

def transforms (s : Script) : Except Fault (Fields (List Edit)) := do
  let names ← s.foldlM Member.bind start
  return names.filterMap fun
    | (name, .function steps) =>
      if name.head? = some '_' then none else some (name, steps)
    | _ => none

def Member.ofJson? (j : Json) : Option Member :=
  let name := textField j "name"
  match String.ofList (textField j "kind") with
  | "function" =>
    some (.function name ((((j.field? "steps").bind Json.list?).getD []).filterMap Edit.ofJson?))
  | "lambda" => some (.function name [])
  | "alias" => some (.copy name (textField j "of"))
  | "import" => some (.other name)
  | "constant" => some (.other name)
  | "class" => some (.other name)
  | "del" => some (.delete name)
  | "raise" => some (.raise (textField j "message"))
  | _ => none

def ofJson (j : Json) : Script := (j.list?.getD []).filterMap Member.ofJson?

def heading : Text := "# scene script\n"

end Script

end Coursework.Scene
