import LabelGrammar.Number.Digits

/-! # Blanks and strings of TOML

Readers take characters from the front of a text and give back the rest. They fail on a text that
does not start as it must.
-/

namespace LabelGrammar.Toml

abbrev Reader (α : Type) := List Char → Option (α × List Char)

def isAllowed (c : Char) : Bool := c == '\t' || (0x20 ≤ c.toNat && c.toNat != 0x7F)

def isBlank (c : Char) : Bool := c == ' ' || c == '\t'

def skipBlanks (cs : List Char) : List Char := cs.dropWhile isBlank

def lineEnd? : List Char → Option (List Char)
  | '\n' :: cs => some cs
  | '\r' :: '\n' :: cs => some cs
  | _ => none

def finishLine (cs : List Char) : Option (List Char) :=
  match skipBlanks cs with
  | [] => some []
  | '#' :: cs =>
    match cs.dropWhile isAllowed with
    | [] => some []
    | cs => lineEnd? cs
  | cs => lineEnd? cs

/-- Skips blanks, comments and line ends. -/
def skipLines (inComment : Bool) : List Char → Option (List Char)
  | [] => some []
  | '\n' :: cs => skipLines false cs
  | '\r' :: '\n' :: cs => skipLines false cs
  | c :: cs =>
    if inComment then if isAllowed c then skipLines true cs else none
    else if isBlank c then skipLines false cs
    else if c == '#' then skipLines true cs
    else some (c :: cs)

/-- Reads items between separators, at most as many as the first argument says. -/
def separated {α : Type} (item : Reader α) (separator : List Char → Option (List Char)) :
    Nat → Reader (List α)
  | 0, _ => none
  | n + 1, cs => do
    let (x, rest) ← item cs
    match separator rest with
    | none => return ([x], rest)
    | some rest =>
      let (xs, rest) ← separated item separator n rest
      return (x :: xs, rest)

def charOfHex? (digits : List Char) : Option Char := do
  let n ← Digits.read? 16 digits
  if n < 0xD800 || (0xDFFF < n && n < 0x110000) then some (Char.ofNat n) else none

def shortEscape? : Char → Option Char
  | '"' => some '"'
  | '\\' => some '\\'
  | 'b' => some '\x08'
  | 'f' => some '\x0c'
  | 'n' => some '\n'
  | 'r' => some '\r'
  | 't' => some '\t'
  | _ => none

def prepend (c : Char) : List Char × List Char → List Char × List Char
  | (text, rest) => (c :: text, rest)

def readBasic : Reader (List Char)
  | [] => none
  | '"' :: cs => some ([], cs)
  | '\\' :: 'u' :: a :: b :: c :: d :: cs => do
    return prepend (← charOfHex? [a, b, c, d]) (← readBasic cs)
  | '\\' :: 'U' :: a :: b :: c :: d :: e :: f :: g :: h :: cs => do
    return prepend (← charOfHex? [a, b, c, d, e, f, g, h]) (← readBasic cs)
  | '\\' :: e :: cs => do return prepend (← shortEscape? e) (← readBasic cs)
  | c :: cs => if isAllowed c && c != '\\' then (readBasic cs).map (prepend c) else none

/-- The rest of a string between triple double quotes. After a backslash at the end of a line,
blanks and line ends are skipped. -/
def readBasicLines (skipping : Bool) : Reader (List Char)
  | [] => none
  | '"' :: '"' :: '"' :: '"' :: '"' :: cs => some (['"', '"'], cs)
  | '"' :: '"' :: '"' :: '"' :: cs => some (['"'], cs)
  | '"' :: '"' :: '"' :: cs => some ([], cs)
  | '\n' :: cs =>
    if skipping then readBasicLines true cs else (readBasicLines false cs).map (prepend '\n')
  | '\r' :: '\n' :: cs =>
    if skipping then readBasicLines true cs else (readBasicLines false cs).map (prepend '\n')
  | '\\' :: 'u' :: a :: b :: c :: d :: cs => do
    return prepend (← charOfHex? [a, b, c, d]) (← readBasicLines false cs)
  | '\\' :: 'U' :: a :: b :: c :: d :: e :: f :: g :: h :: cs => do
    return prepend (← charOfHex? [a, b, c, d, e, f, g, h]) (← readBasicLines false cs)
  | '\\' :: e :: cs =>
    if (lineEnd? (skipBlanks (e :: cs))).isSome then
      if e == '\n' then readBasicLines true cs else readBasicLines true (e :: cs)
    else do return prepend (← shortEscape? e) (← readBasicLines false cs)
  | c :: cs =>
    if skipping && isBlank c then readBasicLines true cs
    else if isAllowed c && c != '\\' then (readBasicLines false cs).map (prepend c)
    else none

def readLiteral : Reader (List Char)
  | [] => none
  | '\'' :: cs => some ([], cs)
  | c :: cs => if isAllowed c then (readLiteral cs).map (prepend c) else none

def readLiteralLines : Reader (List Char)
  | [] => none
  | '\'' :: '\'' :: '\'' :: '\'' :: '\'' :: cs => some (['\'', '\''], cs)
  | '\'' :: '\'' :: '\'' :: '\'' :: cs => some (['\''], cs)
  | '\'' :: '\'' :: '\'' :: cs => some ([], cs)
  | '\n' :: cs => (readLiteralLines cs).map (prepend '\n')
  | '\r' :: '\n' :: cs => (readLiteralLines cs).map (prepend '\n')
  | c :: cs => if isAllowed c then (readLiteralLines cs).map (prepend c) else none

def dropFirstLineEnd (cs : List Char) : List Char := (lineEnd? cs).getD cs

def readLineString : Reader String
  | '"' :: cs => (readBasic cs).map fun (text, rest) => (String.ofList text, rest)
  | '\'' :: cs => (readLiteral cs).map fun (text, rest) => (String.ofList text, rest)
  | _ => none

def readString : Reader String
  | '"' :: '"' :: '"' :: cs =>
    (readBasicLines false (dropFirstLineEnd cs)).map fun (text, rest) => (String.ofList text, rest)
  | '\'' :: '\'' :: '\'' :: cs =>
    (readLiteralLines (dropFirstLineEnd cs)).map fun (text, rest) => (String.ofList text, rest)
  | cs => readLineString cs

example : readString "\"\"\"\na\\  \n  b\"\"\"\"x".toList = some ("ab\"", ['x']) := by decide

example : readString "'a\\b'".toList = some ("a\\b", []) := by decide

end LabelGrammar.Toml
