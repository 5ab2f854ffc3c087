/-! # UTF-8

Reading bytes as text. Bytes that are not well formed are no text.
-/

namespace LabelGrammar.Text

/-- Continues a sequence that needs `more` further bytes, of which the next must lie between
`low` and `high` and all later ones between 0x80 and 0xBF. -/
def continueUtf8 (value : Nat) : (more low high : Nat) → List UInt8 → Option Char
  | 0, _, _, _ => some (Char.ofNat value)
  | _ + 1, _, _, [] => none
  | more + 1, low, high, b :: bs =>
    if low ≤ b.toNat && b.toNat ≤ high then
      continueUtf8 (value * 64 + (b.toNat - 0x80)) more 0x80 0xBF bs
    else none

def utf8Char? (b : UInt8) (bs : List UInt8) : Option (Char × Nat) :=
  let n := b.toNat
  let read (value more low high : Nat) := (continueUtf8 value more low high bs).map (·, more)
  if n < 0x80 then read n 0 0 0
  else if n < 0xC2 then none
  else if n < 0xE0 then read (n - 0xC0) 1 0x80 0xBF
  else if n < 0xF0 then
    read (n - 0xE0) 2 (if n == 0xE0 then 0xA0 else 0x80) (if n == 0xED then 0x9F else 0xBF)
  else if n < 0xF5 then
    read (n - 0xF0) 3 (if n == 0xF0 then 0x90 else 0x80) (if n == 0xF4 then 0x8F else 0xBF)
  else none

/-- The characters of a byte sequence. The first argument counts bytes still inside the previous
character. -/
def utf8Chars? : Nat → List UInt8 → Option (List Char)
  | _, [] => some []
  | skip + 1, _ :: bs => utf8Chars? skip bs
  | 0, b :: bs => do
    let (c, more) ← utf8Char? b bs
    return c :: (← utf8Chars? more bs)

def decodeUtf8? (bytes : List UInt8) : Option String := (utf8Chars? 0 bytes).map String.ofList

example : decodeUtf8? [0x41, 0xC3, 0xA9] = some "Aé" := by decide

example : decodeUtf8? [0xC3] = none := by decide

example : decodeUtf8? [0xED, 0xA0, 0x80] = none := by decide

end LabelGrammar.Text
