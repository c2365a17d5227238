import Coursework.Json.Basic
import Coursework.Text.Literal

namespace Coursework.Json

mutual

def literal : Json → Text
  | .null => "None"
  | .bool b => if b then "True" else "False"
  | .number n => n.textWith ⟨"inf", "nan"⟩
  | .text s => Text.literal s
  | .list xs => ['['] ++ literalItems xs ++ [']']
  | .object fs => ['\x7b'] ++ literalFields fs ++ ['\x7d']

def literalItems : List Json → Text
  | [] => []
  | [x] => literal x
  | x :: xs => literal x ++ [',', ' '] ++ literalItems xs

def literalFields : List (Text × Json) → Text
  | [] => []
  | [(k, v)] => Text.literal k ++ [':', ' '] ++ literal v
  | (k, v) :: fs => Text.literal k ++ [':', ' '] ++ literal v ++ [',', ' '] ++ literalFields fs

end

def shown : Json → Text
  | .text s => s
  | j => literal j

end Coursework.Json
