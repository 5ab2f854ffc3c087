import LabelGrammar.Json.Basic
import LabelGrammar.Number.Shortest
import LabelGrammar.Text.Quoted

/-! # JSON text

Two layouts: on one line without blanks, and on many lines with an indentation of two blanks.
Strings escape only what must be escaped.
-/

namespace LabelGrammar.Json

/-- How a character stands inside a string. -/
def stringChar (c : Char) : List Char :=
  match c with
  | '"' => ['\\', '"']
  | '\\' => ['\\', '\\']
  | '\x08' => ['\\', 'b']
  | '\x0c' => ['\\', 'f']
  | '\n' => ['\\', 'n']
  | '\r' => ['\\', 'r']
  | '\t' => ['\\', 't']
  | c =>
    if c.toNat < 0x20 then
      ['\\', 'u', '0', '0'] ++ (if c.toNat < 0x10 then ['0'] else []) ++ Text.hex c.toNat
    else [c]

def stringChars (s : String) : List Char := '"' :: s.toList.flatMap stringChar ++ ['"']

def atomChars : Json → List Char
  | .null => "null".toList
  | .bool true => "true".toList
  | .bool false => "false".toList
  | .int i => (toString i).toList
  | .float x => x.message.toList
  | .str s => stringChars s
  | .arr _ => []
  | .obj _ => []

mutual

def compactChars : Json → List Char
  | .arr items => '[' :: compactItems items ++ [']']
  | .obj members => '\x7b' :: compactMembers members ++ ['\x7d']
  | v => atomChars v

def compactItems : List Json → List Char
  | [] => []
  | [v] => compactChars v
  | v :: w :: rest => compactChars v ++ ',' :: compactItems (w :: rest)

def compactMembers : List (String × Json) → List Char
  | [] => []
  | [(k, v)] => stringChars k ++ ':' :: compactChars v
  | (k, v) :: m :: rest =>
    stringChars k ++ ':' :: compactChars v ++ ',' :: compactMembers (m :: rest)

end

def compact (v : Json) : String := String.ofList (compactChars v)

def newline (level : Nat) : List Char := '\n' :: List.replicate (2 * level) ' '

mutual

def prettyChars (level : Nat) : Json → List Char
  | .arr [] => ['[', ']']
  | .arr (v :: rest) =>
    '[' :: newline (level + 1) ++ prettyChars (level + 1) v ++ prettyItems (level + 1) rest ++
      newline level ++ [']']
  | .obj [] => ['\x7b', '\x7d']
  | .obj ((k, v) :: rest) =>
    '\x7b' :: newline (level + 1) ++ stringChars k ++ [':', ' '] ++ prettyChars (level + 1) v ++
      prettyMembers (level + 1) rest ++ newline level ++ ['\x7d']
  | v => atomChars v

def prettyItems (level : Nat) : List Json → List Char
  | [] => []
  | v :: rest => ',' :: newline level ++ prettyChars level v ++ prettyItems level rest

def prettyMembers (level : Nat) : List (String × Json) → List Char
  | [] => []
  | (k, v) :: rest =>
    ',' :: newline level ++ stringChars k ++ [':', ' '] ++ prettyChars level v ++
      prettyMembers level rest

end

def pretty (v : Json) : String := String.ofList (prettyChars 0 v)

end LabelGrammar.Json
