import Coursework.Settings.Layers

namespace Coursework.Settings

inductive Misfit
  | kind
  | part
  deriving DecidableEq, Repr

def textOf : Json → Except Misfit Text
  | .text s => .ok s
  | _ => .error .kind

def partsOf (j : Json) : Except Misfit (List Json) :=
  match j.parts? with
  | some xs => .ok xs
  | none => .error .kind

def textsOfParts : List Json → Except Misfit (List Text)
  | [] => .ok []
  | .text s :: js => do return s :: (← textsOfParts js)
  | _ :: _ => .error .part

def textsOf (j : Json) : Except Misfit (List Text) := do textsOfParts (← partsOf j)

def excludesOfParts : List Json → Selection.Excludes
  | [] => ⟨[], true⟩
  | .text s :: js =>
    let rest := excludesOfParts js
    ⟨s :: rest.patterns, rest.complete⟩
  | _ :: _ => ⟨[], false⟩

def excludesOf (j : Json) : Except Misfit Selection.Excludes := do
  return excludesOfParts (← partsOf j)

def Values.orDefault (v : Values) (k : Key) : Json :=
  match v k with
  | .null => k.default
  | j => j

end Coursework.Settings
