import LabelGrammar.Number.Digits
import LabelGrammar.Number.Shortest

/-! # Numbers with infinities

Double-precision values as settings hold them: besides the finite numbers there are infinities,
to which large decimals round, and a value that is no number.
-/

namespace LabelGrammar

inductive Float64 where
  | finite (x : Binary64)
  | infinite (negative : Bool)
  | notANumber
  deriving DecidableEq, Repr

namespace Float64

def plain : Float64 → String
  | .finite x => x.plain
  | .infinite false => "inf"
  | .infinite true => "-inf"
  | .notANumber => "NaN"

def isFinite : Float64 → Bool
  | .finite _ => true
  | .infinite _ | .notANumber => false

/-- The nearest natural number up to `limit`, a half away from zero. What is no number counts as
zero. -/
def toNatural (limit : Nat) : Float64 → Nat
  | .finite x => min x.round.toNat limit
  | .infinite false => limit
  | .infinite true => 0
  | .notANumber => 0

def ofDecimal (negative : Bool) (digits : Nat) (exponent : Int) : Float64 :=
  match Binary64.ofDecimal? negative digits exponent with
  | some x => .finite x
  | none => .infinite negative

def named? (negative : Bool) (cs : List Char) : Option Float64 :=
  let name := String.ofList (cs.map Char.toLower)
  if name == "inf" || name == "infinity" then some (.infinite negative)
  else if name == "nan" then some .notANumber
  else none

def fraction : List Char → List Char × List Char
  | '.' :: cs => Digits.span cs
  | cs => ([], cs)

def exponent? : List Char → Option Int
  | [] => some 0
  | c :: cs => if c == 'e' || c == 'E' then Digits.integer? cs else none

def unsigned? (negative : Bool) (cs : List Char) : Option Float64 := do
  let (whole, rest) := Digits.span cs
  let (places, rest) := fraction rest
  let digits ← Digits.read? 10 (whole ++ places)
  let exponent ← exponent? rest
  return ofDecimal negative digits (exponent - places.length)

def parse? (cs : List Char) : Option Float64 :=
  let (negative, cs) : Bool × List Char :=
    match cs with
    | '-' :: cs => (true, cs)
    | '+' :: cs => (false, cs)
    | cs => (false, cs)
  named? negative cs <|> unsigned? negative cs

example : (parse? "1.e3".toList).map plain = some "1000" := by decide +kernel

example : (parse? "-.5".toList).map plain = some "-0.5" := by decide +kernel

example : (parse? "1e400".toList).map plain = some "inf" := by decide +kernel

example : parse? ".".toList = none := by decide +kernel

end Float64

end LabelGrammar
