/-! # Limits

The ends of the ranges of integers with a fixed number of bits.
-/

namespace LabelGrammar.Limits

def maxNatural32 : Nat := 0xFFFFFFFF

def maxNatural64 : Nat := 0xFFFFFFFFFFFFFFFF

def minInteger64 : Int := -0x8000000000000000

def maxInteger64 : Int := 0x7FFFFFFFFFFFFFFF

def isInteger64 (i : Int) : Bool := minInteger64 ≤ i && i ≤ maxInteger64

def maxNatural128 : Nat := 0xFFFFFFFFFFFFFFFFFFFFFFFFFFFFFFFF

def maxMagnitude128 : Nat := 0x80000000000000000000000000000000

end LabelGrammar.Limits
