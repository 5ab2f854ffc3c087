/-! # Lower case

Lower case as far as it leads to ASCII letters. Of the characters beyond ASCII only the Kelvin sign
does.
-/

namespace LabelGrammar.Text

/-- The lower-case form of a character, if that is an ASCII letter. Other characters stay. -/
def lowerChar (c : Char) : Char := if c == '\u212A' then 'k' else c.toLower

def lower (s : String) : String := String.ofList (s.toList.map lowerChar)

example : lower "Max_RETRIES" = "max_retries" := by decide

end LabelGrammar.Text
