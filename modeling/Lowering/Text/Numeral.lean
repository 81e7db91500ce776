/-!
# Lowering — numerals

Unsigned numerals in ASCII digits, of any length, leading zeros allowed. A decimal numeral is read
back as the number it was written for (`decimal?_toDigits`).
-/

namespace Lowering.Text

/-- The value of a decimal numeral; the empty text is none. -/
def decimal? (cs : List Char) : Option Nat :=
  if cs ≠ [] ∧ cs.all Char.isDigit then some (Nat.ofDigitChars 10 cs 0) else none

/-- The value of a decimal numeral that fits 32 bits. A longer numeral may still fit if it begins
with zeros. -/
def decimal32? (cs : List Char) : Option UInt32 :=
  match decimal? cs with
  | some n => if n < UInt32.size then some (UInt32.ofNat n) else none
  | none => none

/-- The value of a hexadecimal digit, in either case. -/
def hexDigit? (c : Char) : Option Nat :=
  if c.isDigit then some (c.toNat - 48)
  else if 'a' ≤ c ∧ c ≤ 'f' then some (c.toNat - 87)
  else if 'A' ≤ c ∧ c ≤ 'F' then some (c.toNat - 55)
  else none

/-- The value of hexadecimal digits after a number already read. -/
def hexFrom? (n : Nat) : List Char → Option Nat
  | [] => some n
  | c :: cs => do hexFrom? (16 * n + (← hexDigit? c)) cs

/-- The value of a hexadecimal numeral; the empty text is none. -/
def hexadecimal? : List Char → Option Nat
  | [] => none
  | cs => hexFrom? 0 cs

/-- A number written in decimal is read back as that number. Printed registers, widths and
immediates rest on this. -/
theorem decimal?_toDigits (n : Nat) : decimal? (Nat.toDigits 10 n) = some n := by
  have digits : (Nat.toDigits 10 n).all Char.isDigit := by
    simp only [List.all_eq_true]
    exact fun c => Nat.isDigit_of_mem_toDigits (by decide) (by decide)
  simp [decimal?, digits, Nat.toDigits_ne_nil]

end Lowering.Text
