import LabelGrammar.Toml.Date
import LabelGrammar.Toml.Number
import LabelGrammar.Toml.Table

/-! # Keys and values of TOML

Arrays may stretch over lines, inline tables may not. Both nest to a limited depth.
-/

namespace LabelGrammar.Toml

def isBareKeyChar (c : Char) : Bool := c.isAlphanum || c == '_' || c == '-'

def readKeyPart (cs : List Char) : Option (String × List Char) :=
  readLineString cs <|>
    match cs.takeWhile isBareKeyChar with
    | [] => none
    | name => some (String.ofList name, cs.dropWhile isBareKeyChar)

def separator (mark : Char) (cs : List Char) : Option (List Char) :=
  (readMark mark (skipBlanks cs)).map skipBlanks

def depthLimit : Nat := 79

def readKey (cs : List Char) : Option (List String × List Char) := do
  let (path, rest) ← separated readKeyPart (separator '.') cs.length cs
  if path.length ≤ depthLimit then some (path, rest) else none

/-- A value that is neither array nor inline table. A text that starts with a date is one. -/
def readPlain (cs : List Char) : Option (Entry × List Char) :=
  match cs with
  | 't' :: 'r' :: 'u' :: 'e' :: rest => some (.plain (.bool true), rest)
  | 'f' :: 'a' :: 'l' :: 's' :: 'e' :: rest => some (.plain (.bool false), rest)
  | '"' :: _ | '\'' :: _ => (readString cs).map fun (s, rest) => (.plain (.text s), rest)
  | cs =>
    ((readDate cs).map fun (s, rest) => (.date s, rest)) <|>
      ((readDecimal cs).map fun (x, rest) => (.plain (.float x), rest)) <|>
      ((readNamed cs).map fun (x, rest) => (.plain (.float x), rest)) <|>
      ((readInteger cs).map fun (i, rest) => (.plain (.int i), rest))

def itemSeparator (cs : List Char) : Option (List Char) := do
  let rest ← skipLines false (← readMark ',' (← skipLines false cs))
  if rest.head? == some ']' then none else some rest

def closeArray (cs : List Char) : Option (List Char) := do
  let rest ← skipLines false cs
  match rest with
  | ',' :: rest => readMark ']' (← skipLines false rest)
  | rest => readMark ']' rest

def readArray (value : Reader Entry) (cs : List Char) : Option (Entry × List Char) := do
  match ← skipLines false cs with
  | ']' :: rest => return (.list [], rest)
  | cs =>
    let (items, rest) ← separated value itemSeparator cs.length cs
    return (.list items, ← closeArray rest)

def readAssignment (value : Reader Entry) (cs : List Char) :
    Option ((List String × Entry) × List Char) := do
  let (path, rest) ← readKey cs
  let (v, rest) ← value (← separator '=' rest)
  return ((path, v), rest)

def tableOf (assignments : List (List String × Entry)) : Option Entry := do
  let entries ← assignments.foldlM (fun entries (path, v) => Entries.assign v true path entries) []
  return .table .braces entries

def readInlineTable (value : Reader Entry) (cs : List Char) : Option (Entry × List Char) := do
  match skipBlanks cs with
  | '\x7d' :: rest => return (.table .braces [], rest)
  | cs =>
    let (assignments, rest) ← separated (readAssignment value) (separator ',') cs.length cs
    return (← tableOf assignments, ← readMark '\x7d' (skipBlanks rest))

/-- A value in which at most the given number of arrays and inline tables stand one inside the
other. -/
def readValueWithin : Nat → Reader Entry
  | 0, cs => readPlain cs
  | depth + 1, cs =>
    match cs with
    | '[' :: cs => readArray (readValueWithin depth) cs
    | '\x7b' :: cs => readInlineTable (readValueWithin depth) cs
    | cs => readPlain cs

def readValue : Reader Entry := readValueWithin depthLimit

end LabelGrammar.Toml
