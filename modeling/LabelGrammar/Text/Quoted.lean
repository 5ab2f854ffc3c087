import LabelGrammar.Text.Printable

/-! # Quoted text

A text between double quotes on one line. Control characters with a short name are escaped by
it, other characters without a glyph of their own by their code point.
-/

namespace LabelGrammar.Text

def hex (n : Nat) : List Char := Nat.toDigits 16 n

def quoteChar (c : Char) : List Char :=
  match c with
  | '\x00' => ['\\', '0']
  | '\t' => ['\\', 't']
  | '\r' => ['\\', 'r']
  | '\n' => ['\\', 'n']
  | '\\' => ['\\', '\\']
  | '"' => ['\\', '"']
  | c => if isUnprintable c then ['\\', 'u', '\x7b'] ++ hex c.toNat ++ ['\x7d'] else [c]

def quote (s : String) : String :=
  String.ofList ('"' :: s.toList.flatMap quoteChar ++ ['"'])

example : quote "a\"\n\x1b é\u0301" = "\"a\\\"\\n\\u\x7b1b\x7d é\\u\x7b301\x7d\"" := by
  decide +kernel

end LabelGrammar.Text
