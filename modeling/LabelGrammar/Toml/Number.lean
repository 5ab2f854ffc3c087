import LabelGrammar.Number.Float64
import LabelGrammar.Number.Limits
import LabelGrammar.Toml.Text

/-! # Numbers of TOML

Integers of 64 bits in four radices, and decimals. Underscores may stand between two digits.
-/

namespace LabelGrammar.Toml

def moreDigits (radix : Nat) : List Char → List Char × List Char
  | '_' :: c :: cs =>
    if (Digits.value? radix c).isSome then prepend c (moreDigits radix cs) else ([], '_' :: c :: cs)
  | c :: cs =>
    if (Digits.value? radix c).isSome then prepend c (moreDigits radix cs) else ([], c :: cs)
  | [] => ([], [])

def readDigits (radix : Nat) : Reader (List Char)
  | c :: cs =>
    if (Digits.value? radix c).isSome then some (prepend c (moreDigits radix cs)) else none
  | [] => none

/-- Digits of which the first is zero only if it stands alone. -/
def readWhole : Reader (List Char)
  | '0' :: cs => some (['0'], cs)
  | cs => readDigits 10 cs

def readSign : List Char → List Char × List Char
  | '+' :: cs => (['+'], cs)
  | '-' :: cs => (['-'], cs)
  | cs => ([], cs)

def readExponent : Reader (List Char)
  | c :: cs =>
    if c == 'e' || c == 'E' then
      let (sign, cs) := readSign cs
      (readDigits 10 cs).map fun (digits, rest) => (c :: sign ++ digits, rest)
    else none
  | [] => none

def readFraction : Reader (List Char)
  | '.' :: cs => (readDigits 10 cs).map (fun (digits, rest) => ('.' :: digits, rest))
  | _ => none

def readTail (cs : List Char) : Option (List Char × List Char) :=
  match readFraction cs with
  | none => readExponent cs
  | some (fraction, rest) =>
    match readExponent rest with
    | none => some (fraction, rest)
    | some (exponent, rest) => some (fraction ++ exponent, rest)

/-- A decimal with a fraction or an exponent. One that is too large is refused, unless it is
negative. -/
def readDecimal (cs : List Char) : Option (Float64 × List Char) := do
  let (sign, cs) := readSign cs
  let (whole, cs) ← readWhole cs
  let (tail, rest) ← readTail cs
  let x ← Float64.parse? (sign ++ whole ++ tail)
  if x = .infinite false then none else some (x, rest)

def readNamed (cs : List Char) : Option (Float64 × List Char) :=
  match readSign cs with
  | (sign, 'i' :: 'n' :: 'f' :: rest) => some (.infinite (sign == ['-']), rest)
  | (_, 'n' :: 'a' :: 'n' :: rest) => some (.notANumber, rest)
  | _ => none

def checkInteger (i : Int) : Option Int :=
  if Limits.isInteger64 i then some i else none

def readInRadix (radix : Nat) (cs : List Char) : Option (Int × List Char) := do
  let (digits, rest) ← readDigits radix cs
  return (← checkInteger (← Digits.read? radix digits), rest)

def readInteger : Reader Int
  | '0' :: 'x' :: cs => readInRadix 16 cs
  | '0' :: 'o' :: cs => readInRadix 8 cs
  | '0' :: 'b' :: cs => readInRadix 2 cs
  | cs => do
    let (sign, cs) := readSign cs
    let (digits, rest) ← readWhole cs
    return (← checkInteger (← Digits.integer? (sign ++ digits)), rest)

example : readInteger "1_000,".toList = some (1000, [',']) := by decide

example : readInteger "0xff_FF".toList = some (65535, []) := by decide

example : (readDecimal "-1_0.5e1]".toList).map (·.1.plain) = some "-105" := by decide +kernel

end LabelGrammar.Toml
