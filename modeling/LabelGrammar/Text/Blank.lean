/-! # Blank characters

The characters with the Unicode property `White_Space`, and trimming by it.
-/

namespace LabelGrammar.Text

/-- Whether a character has the Unicode property `White_Space`. -/
def isBlank (c : Char) : Bool :=
  let n := c.toNat
  (9 ≤ n && n ≤ 13) || n == 0x20 || n == 0x85 || n == 0xA0 || n == 0x1680 ||
    (0x2000 ≤ n && n ≤ 0x200A) || n == 0x2028 || n == 0x2029 || n == 0x202F ||
    n == 0x205F || n == 0x3000

def dropEnd (p : Char → Bool) (cs : List Char) : List Char :=
  (cs.reverse.dropWhile p).reverse

def trim (cs : List Char) : List Char :=
  dropEnd isBlank (cs.dropWhile isBlank)

theorem dropEnd_append_of_all {p : Char → Bool} (cs ds : List Char) (h : ∀ d ∈ ds, p d = true) :
    dropEnd p (cs ++ ds) = dropEnd p cs := by
  simp only [dropEnd, List.reverse_append]
  rw [List.dropWhile_append_of_pos]
  simpa using h

end LabelGrammar.Text
