import LabelGrammar.Json.Basic
import LabelGrammar.Yaml.Scalar

/-! # YAML documents

The block layout of a value: one entry or item on a line, inner entries two blanks further to the
right, and items below a key as far to the left as the key.
-/

namespace LabelGrammar.Yaml

def atomLine (indent : Nat) : Json → List Char
  | .null => "null\n".toList
  | .bool true => "true\n".toList
  | .bool false => "false\n".toList
  | .int i => (toString i).toList ++ ['\n']
  | .float x => x.message.toList ++ ['\n']
  | .str s => scalarLine indent s
  | .arr _ => "[]\n".toList
  | .obj _ => "\x7b\x7d\n".toList

def margin (indent : Nat) : List Char := List.replicate indent ' '

mutual

def block (indent : Nat) : Json → List Char
  | .arr (v :: rest) => '-' :: ' ' :: block (indent + 2) v ++ items indent rest
  | .obj ((k, v) :: rest) => k.toList ++ ':' :: afterKey indent v ++ members indent rest
  | v => atomLine indent v

def afterKey (indent : Nat) : Json → List Char
  | .arr (v :: rest) =>
    '\n' :: margin indent ++ '-' :: ' ' :: block (indent + 2) v ++ items indent rest
  | .obj ((k, v) :: rest) =>
    '\n' :: margin (indent + 2) ++ k.toList ++ ':' :: afterKey (indent + 2) v ++
      members (indent + 2) rest
  | v => ' ' :: atomLine (indent + 2) v

def items (indent : Nat) : List Json → List Char
  | [] => []
  | v :: rest => margin indent ++ '-' :: ' ' :: block (indent + 2) v ++ items indent rest

def members (indent : Nat) : List (String × Json) → List Char
  | [] => []
  | (k, v) :: rest => margin indent ++ k.toList ++ ':' :: afterKey indent v ++ members indent rest

end

end Yaml

/-- The YAML text of a value. -/
def Json.yaml (v : Json) : String := String.ofList (Yaml.block 0 v)

end LabelGrammar
