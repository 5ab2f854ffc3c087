import LabelGrammar.Number.Binary64

/-! # Shortest decimal text

Among the decimals that round to a given number, those with the fewest digits are found on the
grids of 1, 2, 3, … digits, where only the two neighbours of the exact value can be closest. Of
two that round back the nearer is taken. Of two equally near the layout says which.
-/

namespace LabelGrammar

/-- The number `± digits * 10 ^ exponent`. -/
structure Decimal where
  negative : Bool
  digits : Nat
  exponent : Int
  deriving DecidableEq, Repr

namespace Decimal

def strip : Nat → Decimal → Decimal
  | 0, d => d
  | n + 1, d =>
    if d.digits % 10 == 0 && d.digits != 0 then
      strip n { d with digits := d.digits / 10, exponent := d.exponent + 1 }
    else d

/-- The number of places before the point of `num / den`; not positive if the fraction starts
with zeros. -/
def magnitude (num den : Nat) : Int :=
  if den ≤ num then (toString (num / den)).length
  else
    let rec go : Nat → Nat → Int → Int
      | 0, _, k => k
      | n + 1, num, k => if den ≤ num then k else go n (num * 10) (k - 1)
    go 400 (num * 10) 0

def onGrid (num den : Nat) : Int → Nat × Nat
  | .ofNat p => (num, den * Nat.pow 10 p)
  | .negSucc p => (num * Nat.pow 10 (p + 1), den)

/-- The exact value and the ends of the interval that rounds to `x`, over one denominator, which
comes last. -/
def interval (x : Binary64) : Nat × Nat × Nat × Nat :=
  let m := x.mantissa
  let below := if m == Nat.pow 2 52 && Binary64.minExponent < x.exponent then 1 else 2
  let (unit, den) : Nat × Nat :=
    match x.exponent with
    | .ofNat e => (Nat.pow 2 e, 4)
    | .negSucc e => (1, 4 * Nat.pow 2 (e + 1))
  (4 * m * unit, (4 * m - below) * unit, (4 * m + 2) * unit, den)

/-- The neighbour of the value on the grid of `10 ^ p` that rounds to `x`, if there is one. A tie
goes up or to the even one. -/
def neighbour? (tieUp : Bool) (x : Binary64) (p : Int) : Option Nat :=
  let (value, low, high, den) := interval x
  let (v, d) := onGrid value den p
  let (l, _) := onGrid low den p
  let (h, _) := onGrid high den p
  let even := x.mantissa % 2 == 0
  let inside (k : Nat) : Bool :=
    if even then l ≤ k * d && k * d ≤ h else l < k * d && k * d < h
  let k := v / d
  let r := v % d
  match inside k, inside (k + 1) with
  | false, false => none
  | true, false => some k
  | false, true => some (k + 1)
  | true, true => some (if 2 * r < d || (2 * r == d && !tieUp && k % 2 == 0) then k else k + 1)

/-- The shortest decimal that rounds to `x`. -/
def shortest (tieUp : Bool) (x : Binary64) : Decimal :=
  if x.isZero then ⟨x.negative, 0, 0⟩
  else
    let (num, den) := x.ratio
    let k := magnitude num den
    let found := (List.range 17).findSome? fun (n : Nat) =>
      (neighbour? tieUp x (k - 1 - n)).map fun d => strip 20 ⟨x.negative, d, k - 1 - n⟩
    found.getD ⟨x.negative, x.mantissa, 0⟩

structure Layout where
  /-- Smallest power of ten of the first digit that is written without exponent. -/
  lowest : Option Int
  /-- Largest power of ten of the first digit that is written without exponent. -/
  highest : Option Int
  pointZero : Bool
  /-- Whether the larger of two equally near decimals is taken, or else the even one. -/
  tieUp : Bool

/-- Numbers inside messages: an exponent below `1e-5` and from `1e16`. -/
def Layout.message : Layout := ⟨some (-5), some 15, true, false⟩

def Layout.plain : Layout := ⟨none, none, false, true⟩

def positional (digits : String) (exponent : Int) (pointZero : Bool) : String :=
  match exponent with
  | .ofNat e => digits ++ "".pushn '0' e ++ if pointZero then ".0" else ""
  | .negSucc e =>
    let places := e + 1
    if places < digits.length then
      let whole := digits.length - places
      String.ofList (digits.toList.take whole) ++ "." ++ String.ofList (digits.toList.drop whole)
    else "0." ++ "".pushn '0' (places - digits.length) ++ digits

def scientific (digits : String) (power : Int) : String :=
  let head := String.ofList (digits.toList.take 1)
  let tail := String.ofList (digits.toList.drop 1)
  let sign := if power < 0 then "-" else "+"
  head ++ (if tail.isEmpty then "" else "." ++ tail) ++ "e" ++ sign ++ toString power.natAbs

def render (layout : Layout) (d : Decimal) : String :=
  let digits := toString d.digits
  let power : Int := d.exponent + digits.length - 1
  let plain :=
    d.digits == 0 ||
      (layout.lowest.all (· ≤ power) && layout.highest.all (power ≤ ·))
  (if d.negative then "-" else "") ++
    if plain then positional digits d.exponent layout.pointZero else scientific digits power

end Decimal

def Binary64.render (layout : Decimal.Layout) (x : Binary64) : String :=
  (Decimal.shortest layout.tieUp x).render layout

def Binary64.message (x : Binary64) : String :=
  x.render .message

def Binary64.plain (x : Binary64) : String :=
  x.render .plain

end LabelGrammar
