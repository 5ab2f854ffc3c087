/-! # Request numbers

Every evaluation gets a number when it is issued. Only the answer to the latest one counts.
-/

namespace LabelGrammar

structure RequestNumber where
  value : Nat
  deriving DecidableEq, Repr

namespace RequestNumber

def render (n : RequestNumber) : String := s!"#{n.value}"

instance : Ord RequestNumber := ⟨fun m n => compare m.value n.value⟩

end RequestNumber

/-- Issues numbers from 1 on. -/
structure Numbering where
  count : Nat
  deriving DecidableEq, Repr

namespace Numbering

def new : Numbering := ⟨0⟩

def issue (n : Numbering) : RequestNumber × Numbering := (⟨n.count + 1⟩, ⟨n.count + 1⟩)

def latest? (n : Numbering) : Option RequestNumber :=
  if 0 < n.count then some ⟨n.count⟩ else none

def isCurrent (n : Numbering) (number : RequestNumber) : Bool := number.value == n.count

end Numbering

end LabelGrammar
