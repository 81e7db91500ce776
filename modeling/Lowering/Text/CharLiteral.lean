import Lowering.Text.Printable

/-!
# Lowering — a character as a literal

How a message shows one character: between single quotes, as itself where that can be seen, and
otherwise by an escape. The commonest controls, the backslash and the quote have an escape of one
letter; every other character that would not be seen is shown by its code point.
-/

namespace Lowering.Text

/-- The code point in lower-case hexadecimal, without leading zeros. -/
def hexText (n : Nat) : String :=
  String.ofList (Nat.toDigits 16 n)

/-- The character as it stands between the quotes. An extender is escaped also where it would print,
because it would join the quote before it. -/
def escaped (c : Char) : String :=
  if c = '\x00' then "\\0"
  else if c = '\t' then "\\t"
  else if c = '\r' then "\\r"
  else if c = '\n' then "\\n"
  else if c = '\\' then "\\\\"
  else if c = '\'' then "\\'"
  else if isExtender c || !isPrintable c then "\\u\x7b" ++ hexText c.toNat ++ "\x7d"
  else c.toString

/-- A character that may be missing, at the end of a text. -/
def foundText : Option Char → String
  | none => "None"
  | some c => "Some('" ++ escaped c ++ "')"

end Lowering.Text
