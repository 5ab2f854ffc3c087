import LabelGrammar.Json.Basic
import LabelGrammar.Number.Digits
import LabelGrammar.Number.Limits

/-! # JSON tokens

Cutting a text into brackets, punctuation and atoms. A number keeps its integer value if it has
neither fraction nor exponent and fits in 64 bits. Any other number takes its digits into a
significand of 64 bits, as many as fit, and is scaled by a rounded power of ten.
-/

namespace LabelGrammar.Json

inductive Token where
  | leftBracket
  | rightBracket
  | leftBrace
  | rightBrace
  | comma
  | colon
  | atom (value : Json)
  | string (value : String)

def hexUnit? (a b c d : Char) : Option Nat := Digits.read? 16 [a, b, c, d]

def shortEscape? : Char → Option Char
  | '"' => some '"'
  | '\\' => some '\\'
  | '/' => some '/'
  | 'b' => some '\x08'
  | 'f' => some '\x0c'
  | 'n' => some '\n'
  | 'r' => some '\r'
  | 't' => some '\t'
  | _ => none

def readString : List Char → Option (List Char × List Char)
  | [] => none
  | '"' :: rest => some ([], rest)
  | '\\' :: 'u' :: a :: b :: c :: d :: rest => do
    let unit ← hexUnit? a b c d
    if 0xD800 ≤ unit && unit < 0xDC00 then
      match rest with
      | '\\' :: 'u' :: e :: f :: g :: h :: rest => do
        let low ← hexUnit? e f g h
        if 0xDC00 ≤ low && low < 0xE000 then
          let (cs, rest) ← readString rest
          return (Char.ofNat (0x10000 + (unit - 0xD800) * 0x400 + (low - 0xDC00)) :: cs, rest)
        else none
      | _ => none
    else if 0xDC00 ≤ unit && unit < 0xE000 then none
    else
      let (cs, rest) ← readString rest
      return (Char.ofNat unit :: cs, rest)
  | '\\' :: e :: rest => do
    let c ← shortEscape? e
    let (cs, rest) ← readString rest
    return (c :: cs, rest)
  | c :: rest =>
    if c.toNat < 0x20 || c == '\\' then none
    else do
      let (cs, rest) ← readString rest
      return (c :: cs, rest)

/-- Takes digits into the significand as long as it fits; what remains is not taken. -/
def takeDigits (significand : Nat) : List Char → Nat × List Char
  | [] => (significand, [])
  | c :: cs =>
    let next := significand * 10 + (c.toNat - '0'.toNat)
    if next ≤ Limits.maxNatural64 then takeDigits next cs else (significand, c :: cs)

/-- Divides by `10 ^ n`, in steps of at most 308, as long as something is left. -/
def divPowerOfTen? : (fuel : Nat) → Binary64 → Nat → Option Binary64
  | 0, x, _ => some x
  | fuel + 1, x, n =>
    if n ≤ 308 then do x.div? (← Binary64.powerOfTen? n)
    else if x.isZero then some x
    else do divPowerOfTen? fuel (← x.div? (← Binary64.powerOfTen? 308)) (n - 308)

def scaleByTen? (negative : Bool) (significand : Nat) (exponent : Int) : Option Binary64 := do
  let x ← Binary64.ofRatio negative significand 1
  match exponent with
  | .ofNat n =>
    if n ≤ 308 then x.mul? (← Binary64.powerOfTen? n)
    else if x.isZero then return x
    else none
  | .negSucc n => divPowerOfTen? 4 x (n + 1)

def numberValue? (negative : Bool) (whole : List Char) (fraction : Option (List Char))
    (exponent : Option Int) : Option Json :=
  let (significand, dropped) := takeDigits 0 whole
  match fraction, exponent, dropped with
  | none, none, [] =>
    if !negative then some (.int significand)
    else if 0 < significand && -(significand : Int) ≥ Limits.minInteger64 then
      some (.int (-significand))
    else (scaleByTen? true significand 0).map .float
  | _, _, _ =>
    let digits := fraction.getD []
    let (significand, rest) := takeDigits significand digits
    let shift : Int := dropped.length - (digits.length - rest.length : Nat)
    (scaleByTen? negative significand (shift + exponent.getD 0)).map .float

def readFraction : List Char → Option (Option (List Char) × List Char)
  | '.' :: cs =>
    match Digits.span cs with
    | ([], _) => none
    | (digits, rest) => some (some digits, rest)
  | cs => some (none, cs)

def readExponentDigits (negative : Bool) (cs : List Char) : Option (Option Int × List Char) :=
  match Digits.span cs with
  | ([], _) => none
  | (digits, rest) =>
    let n : Int := digits.foldl (fun n c => n * 10 + (c.toNat - '0'.toNat : Nat)) 0
    some (some (if negative then -n else n), rest)

def readExponent : List Char → Option (Option Int × List Char)
  | c :: cs =>
    if c == 'e' || c == 'E' then
      match cs with
      | '+' :: cs => readExponentDigits false cs
      | '-' :: cs => readExponentDigits true cs
      | cs => readExponentDigits false cs
    else some (none, c :: cs)
  | [] => some (none, [])

/-- Reads a number after its sign. A leading zero stands alone. -/
def readNumber (negative : Bool) (cs : List Char) : Option (Json × List Char) := do
  let (whole, rest) := Digits.span cs
  if whole.isEmpty || (whole.head? == some '0' && 1 < whole.length) then none
  let (fraction, rest) ← readFraction rest
  let (exponent, rest) ← readExponent rest
  return (← numberValue? negative whole fraction exponent, rest)

def readToken : List Char → Option (Token × List Char)
  | '[' :: cs => some (.leftBracket, cs)
  | ']' :: cs => some (.rightBracket, cs)
  | '\x7b' :: cs => some (.leftBrace, cs)
  | '\x7d' :: cs => some (.rightBrace, cs)
  | ',' :: cs => some (.comma, cs)
  | ':' :: cs => some (.colon, cs)
  | 'n' :: 'u' :: 'l' :: 'l' :: cs => some (.atom .null, cs)
  | 't' :: 'r' :: 'u' :: 'e' :: cs => some (.atom (.bool true), cs)
  | 'f' :: 'a' :: 'l' :: 's' :: 'e' :: cs => some (.atom (.bool false), cs)
  | '"' :: cs => (readString cs).map fun (s, rest) => (.string (String.ofList s), rest)
  | '-' :: cs => (readNumber true cs).map fun (v, rest) => (.atom v, rest)
  | cs => (readNumber false cs).map fun (v, rest) => (.atom v, rest)

def isSpace (c : Char) : Bool := c == ' ' || c == '\t' || c == '\n' || c == '\r'

/-- Cuts a text into at most as many tokens as the first argument says. -/
def tokensWithin : Nat → List Char → Option (List Token)
  | 0, cs => if cs.all isSpace then some [] else none
  | n + 1, cs =>
    match cs.dropWhile isSpace with
    | [] => some []
    | cs => do
      let (token, rest) ← readToken cs
      let tokens ← tokensWithin n rest
      return token :: tokens

def tokens (cs : List Char) : Option (List Token) := tokensWithin cs.length cs

end LabelGrammar.Json
