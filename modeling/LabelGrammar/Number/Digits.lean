/-! # Digits

Integers as digits of a radix of at most 16, with or without a sign.
-/

namespace LabelGrammar.Digits

/-- The value of a digit. Letters stand for the values from 10 on, in either case. -/
def value? (radix : Nat) (c : Char) : Option Nat :=
  let value : Nat :=
    if '0' ≤ c && c ≤ '9' then c.toNat - '0'.toNat
    else if 'a' ≤ c && c ≤ 'f' then c.toNat - 'a'.toNat + 10
    else if 'A' ≤ c && c ≤ 'F' then c.toNat - 'A'.toNat + 10
    else radix
  if value < radix then some value else none

def readAfter? (radix : Nat) (high : Nat) : List Char → Option Nat
  | [] => some high
  | c :: cs => do readAfter? radix (high * radix + (← value? radix c)) cs

def read? (radix : Nat) (cs : List Char) : Option Nat :=
  if cs.isEmpty then none else readAfter? radix 0 cs

def span (cs : List Char) : List Char × List Char :=
  (cs.takeWhile Char.isDigit, cs.dropWhile Char.isDigit)

def natural? : List Char → Option Nat
  | '+' :: cs => read? 10 cs
  | cs => read? 10 cs

def integer? : List Char → Option Int
  | '-' :: cs => (read? 10 cs).map fun n => -n
  | cs => (natural? cs).map Int.ofNat

example : read? 16 "fF0".toList = some 0xFF0 := by decide

example : integer? "-007".toList = some (-7) := by decide

example : natural? "+".toList = none := by decide

end LabelGrammar.Digits
