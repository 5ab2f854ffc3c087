import LabelGrammar.Number.Float64
import LabelGrammar.Number.Limits

/-! # Texts in YAML

How a text stands in a YAML document: plain, between single or double quotes, or as a literal
block, which a text of several lines prefers. A text is not plain if it would then be read as
something else.
-/

namespace LabelGrammar.Yaml

/-- Whether digits behind an optional sign start with a zero of no use. -/
def hasIdleZero (cs : List Char) : Bool :=
  match cs with
  | '-' :: '0' :: c :: cs | '+' :: '0' :: c :: cs | '0' :: c :: cs => (c :: cs).all Char.isDigit
  | _ => false

def markedNumber? : List Char → Option Nat
  | '0' :: 'x' :: cs => Digits.read? 16 cs
  | '0' :: 'o' :: cs => Digits.read? 8 cs
  | '0' :: 'b' :: cs => Digits.read? 2 cs
  | _ => none

def isMarkedInteger : List Char → Bool
  | '-' :: cs => (markedNumber? cs).any (· ≤ Limits.maxMagnitude128)
  | '+' :: cs => (markedNumber? cs).any (· ≤ Limits.maxNatural128)
  | cs => (markedNumber? cs).any (· ≤ Limits.maxNatural128)

def numberNames : List String :=
  [".inf", ".Inf", ".INF", "+.inf", "+.Inf", "+.INF", "-.inf", "-.Inf", "-.INF",
    ".nan", ".NaN", ".NAN"]

def valueNames : List String :=
  ["null", "Null", "NULL", "~", "true", "True", "TRUE", "false", "False", "FALSE"]

/-- Whether a text without quotes reads as something else, or did so once. -/
def readsAsOther (s : String) : Bool :=
  s.isEmpty || valueNames.contains s || numberNames.contains s || isMarkedInteger s.toList ||
    hasIdleZero s.toList || (Float64.parse? s.toList).any Float64.isFinite

/-- Whether a character ends a line. Carriage return and next line are escaped instead. -/
def isBreak (c : Char) : Bool := c == '\n' || c == '\u2028' || c == '\u2029'

def isSpecial (c : Char) : Bool :=
  let n := c.toNat
  !(n == 0x0A || (0x20 ≤ n && n ≤ 0x7E) || (0xA0 ≤ n && n ≤ 0xFFFD && n != 0xFEFF) || 0x10000 ≤ n)

def isGap : Option Char → Bool
  | none => true
  | some c => ['\x00', ' ', '\t', '\r', '\n', '\u0085', '\u2028', '\u2029'].contains c

def indicators : List Char := "#,[]\x7b\x7d&*!|>'\"%@`".toList

def hasInnerMark : (before : Char) → List Char → Bool
  | _, [] => false
  | before, c :: cs =>
    (c == ':' && isGap cs.head?) || (c == '#' && isGap (some before)) || hasInnerMark c cs

def hasMark (cs : List Char) : Bool :=
  "---".toList.isPrefixOf cs || "...".toList.isPrefixOf cs ||
    match cs with
    | [] => false
    | c :: cs =>
      indicators.contains c || (['?', ':', '-'].contains c && isGap cs.head?) || hasInnerMark c cs

def hasPair (p q : Char → Bool) : List Char → Bool
  | c :: d :: cs => (p c && q d) || hasPair p q (d :: cs)
  | _ => false

inductive Style where
  | plain
  | singleQuoted
  | doubleQuoted
  | literal
  deriving DecidableEq, Repr

def isSpace (c : Char) : Bool := c == ' '

/-- Whether a text must be escaped: no other style keeps its blanks and characters. -/
def needsEscapes (cs : List Char) : Bool := cs.any isSpecial || hasPair isSpace isBreak cs

def allowsSingleQuotes (cs : List Char) : Bool :=
  !(needsEscapes cs || hasPair isBreak isSpace cs)

/-- Whether a text may stand as a literal block. -/
def allowsLiteral (cs : List Char) : Bool := !(needsEscapes cs || cs.getLast? == some ' ')

/-- Whether a text may stand without quotes. -/
def allowsPlain (cs : List Char) : Bool :=
  !(needsEscapes cs || cs.head? == some ' ' || cs.getLast? == some ' ' || cs.any isBreak ||
    hasMark cs)

def Style.of (s : String) : Style :=
  let cs := s.toList
  if cs.contains '\n' then if allowsLiteral cs then .literal else .doubleQuoted
  else if !readsAsOther s && allowsPlain cs then .plain
  else if allowsSingleQuotes cs then .singleQuoted
  else .doubleQuoted

def hexDigits (length n : Nat) : List Char :=
  let digits := (Nat.toDigits 16 n).map Char.toUpper
  List.replicate (length - digits.length) '0' ++ digits

def escape (c : Char) : List Char :=
  match c with
  | '\x00' => ['\\', '0']
  | '\x07' => ['\\', 'a']
  | '\x08' => ['\\', 'b']
  | '\t' => ['\\', 't']
  | '\n' => ['\\', 'n']
  | '\x0b' => ['\\', 'v']
  | '\x0c' => ['\\', 'f']
  | '\r' => ['\\', 'r']
  | '\x1b' => ['\\', 'e']
  | '"' => ['\\', '"']
  | '\\' => ['\\', '\\']
  | '\u0085' => ['\\', 'N']
  | '\u2028' => ['\\', 'L']
  | '\u2029' => ['\\', 'P']
  | c =>
    if !isSpecial c then [c]
    else if c.toNat ≤ 0xFF then '\\' :: 'x' :: hexDigits 2 c.toNat
    else if c.toNat ≤ 0xFFFF then '\\' :: 'u' :: hexDigits 4 c.toNat
    else '\\' :: 'U' :: hexDigits 8 c.toNat

/-- Characters with an indentation at the start of each line that is not empty. The first argument
tells whether a line starts. -/
def indented (indent : Nat) : Bool → List Char → List Char
  | _, [] => []
  | atStart, c :: cs =>
    if isBreak c then c :: indented indent true cs
    else if atStart then List.replicate indent ' ' ++ c :: indented indent false cs
    else c :: indented indent false cs

/-- The text between single quotes, in which each quote is written twice. -/
def singleQuoted (indent : Nat) (cs : List Char) : List Char :=
  let doubled := cs.flatMap fun c => if c == '\'' then ['\'', '\''] else [c]
  '\'' :: indented indent false (doubled ++ ['\''])

def chomping (cs : List Char) : List Char :=
  match cs.reverse with
  | c :: d :: _ => if !isBreak c then ['-'] else if isBreak d then ['+'] else []
  | [c] => if isBreak c then ['+'] else ['-']
  | [] => ['-']

/-- The head of a literal block. A text that starts with a blank needs the step of indentation. -/
def literalHead (cs : List Char) : List Char :=
  let step := if cs.head?.any fun c => isSpace c || isBreak c then ['2'] else []
  '|' :: step ++ chomping cs

def scalarLine (indent : Nat) (s : String) : List Char :=
  let cs := s.toList
  match Style.of s with
  | .plain => cs ++ ['\n']
  | .singleQuoted => singleQuoted indent cs ++ ['\n']
  | .doubleQuoted => '"' :: cs.flatMap escape ++ ['"', '\n']
  | .literal =>
    literalHead cs ++ '\n' :: indented indent true cs ++
      if cs.getLast?.any isBreak then [] else ['\n']

end LabelGrammar.Yaml
