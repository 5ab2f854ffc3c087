/-! # Lines

A text is cut into lines at each line feed. A carriage return directly before the line feed
belongs to the line end; a text that ends with a line feed has no further, empty line.
-/

namespace LabelGrammar.Text

/-- The lines of a text, without their line ends. -/
def lines : List Char → List (List Char)
  | [] => []
  | '\n' :: cs => [] :: lines cs
  | '\r' :: '\n' :: cs => [] :: lines cs
  | c :: cs =>
    match lines cs with
    | [] => [[c]]
    | l :: ls => (c :: l) :: ls

/-- The cells of a line, between its commas. There is always at least one. -/
def cells : List Char → List (List Char)
  | [] => [[]]
  | ',' :: cs => [] :: cells cs
  | c :: cs =>
    match cells cs with
    | [] => [[c]]
    | l :: ls => (c :: l) :: ls

example : (lines "a\r\n\nb\r".toList).map String.ofList = ["a", "", "b\r"] := by decide

example : (cells "a,,b".toList).map String.ofList = ["a", "", "b"] := by decide

end LabelGrammar.Text
