/-! # Binary floating point

Finite numbers of the form `± mantissa * 2 ^ exponent` with a mantissa below `2 ^ 53`, with
rounding of exact quotients to the nearest such number, ties to an even mantissa.
-/

namespace LabelGrammar

structure Binary64 where
  negative : Bool
  mantissa : Nat
  exponent : Int
  deriving DecidableEq, Repr

namespace Binary64

def minExponent : Int := -1074

def maxExponent : Int := 971

/-- The quotient rounded to the nearest integer, ties to the even one. -/
def divToEven (num den : Nat) : Nat :=
  let q := num / den
  let r := num % den
  if 2 * r < den then q
  else if den < 2 * r then q + 1
  else q + q % 2

def scaled (num den : Nat) : Int → Nat × Nat
  | .ofNat e => (num, den * Nat.pow 2 e)
  | .negSucc e => (num * Nat.pow 2 (e + 1), den)

/-- The exponent at which `num / den` has a mantissa of 53 bits, or the smallest one. -/
def exponentFor (num den : Nat) : Int :=
  let e : Int := (num.log2 : Int) - den.log2 - 52
  let (n, d) := scaled num den e
  max (if n / d < Nat.pow 2 52 then e - 1 else e) minExponent

def ofRatio (negative : Bool) (num den : Nat) : Option Binary64 :=
  if num == 0 then some ⟨negative, 0, minExponent⟩
  else
    let e := exponentFor num den
    let (n, d) := scaled num den e
    let m := divToEven n d
    let (m, e) := if m == Nat.pow 2 53 then (Nat.pow 2 52, e + 1) else (m, e)
    if maxExponent < e then none else some ⟨negative, m, e⟩

def ratio (x : Binary64) : Nat × Nat :=
  match x.exponent with
  | .ofNat e => (x.mantissa * Nat.pow 2 e, 1)
  | .negSucc e => (x.mantissa, Nat.pow 2 (e + 1))

def isZero (x : Binary64) : Bool := x.mantissa == 0

def mul? (x y : Binary64) : Option Binary64 :=
  let (a, b) := x.ratio
  let (c, d) := y.ratio
  ofRatio (x.negative != y.negative) (a * c) (b * d)

def div? (x y : Binary64) : Option Binary64 :=
  let (a, b) := x.ratio
  let (c, d) := y.ratio
  ofRatio (x.negative != y.negative) (a * d) (b * c)

def powerOfTen? (n : Nat) : Option Binary64 := ofRatio false (Nat.pow 10 n) 1

/-- The number nearest to `digits * 10 ^ exponent`. The exponents at which the value certainly
overflows or vanishes are cut off. -/
def ofDecimal? (negative : Bool) (digits : Nat) (exponent : Int) : Option Binary64 :=
  if digits == 0 then some ⟨negative, 0, minExponent⟩
  else
    let size : Int := (toString digits).length
    if 400 < exponent + size then none
    else if exponent + size < -400 then some ⟨negative, 0, minExponent⟩
    else match exponent with
      | .ofNat e => ofRatio negative (digits * Nat.pow 10 e) 1
      | .negSucc e => ofRatio negative digits (Nat.pow 10 (e + 1))

/-- The nearest integer, a half away from zero. -/
def round (x : Binary64) : Int :=
  let (a, b) := x.ratio
  let n : Int := (2 * a + b) / (2 * b)
  if x.negative then -n else n

example : ofDecimal? false 1 (-1) = some ⟨false, 0x1999999999999A, -56⟩ := by decide +kernel

example : ofDecimal? false 5 (-324) = some ⟨false, 1, -1074⟩ := by decide +kernel

example : ofDecimal? false 17976931348623159 292 = none := by decide +kernel

example : (ofDecimal? true 25 (-1)).map round = some (-3) := by decide +kernel

end Binary64

end LabelGrammar
