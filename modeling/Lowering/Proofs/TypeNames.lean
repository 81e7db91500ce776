import Lowering.Routine.Reader

/-!
# Lowering — written register types

A register type is read back from its written form (`RegType.ofName?_text`), and that form is a name
that a reader takes as a whole (`RegType.isNameChar_of_mem_text`).
-/

namespace Lowering

namespace Text

/-- A number of 32 bits is read back from its decimal digits. -/
theorem decimal32?_toDigits (n : UInt32) : decimal32? (Nat.toDigits 10 n.toNat) = some n := by
  unfold decimal32?
  rw [decimal?_toDigits]
  simp only [UInt32.toNat_lt_size n, if_true]
  exact congrArg some (UInt32.ofNat_toNat)

theorem toList_repr (n : Nat) : n.repr.toList = Nat.toDigits 10 n := by
  rw [Nat.repr_eq_ofList_toDigits, String.toList_ofList]

/-- Decimal digits are ASCII digits. -/
theorem isDigit_of_mem_toDigits {n : Nat} {c : Char} (h : c ∈ Nat.toDigits 10 n) :
    c.isDigit = true :=
  Nat.isDigit_of_mem_toDigits (by decide) (by decide) h

end Text

theorem Reader.isNameChar_of_isDigit {c : Char} (h : c.isDigit = true) :
    Reader.isNameChar c = true := by
  simp [Reader.isNameChar, Char.isAlphanum, h]

namespace RegType

/-- A width is read back behind its letter. -/
theorem sized?_toDigits (letter : Char) (w : UInt32) :
    sized? letter (letter :: Nat.toDigits 10 w.toNat) = some w := by
  rw [sized?, if_pos rfl]
  exact Text.decimal32?_toDigits w

/-- A type is read back from its written form. Each of the three forms is tried in turn, so for a
pointer it has to be known that it is no scalar, and for a class, of which there are few, that it is
neither. -/
theorem ofName?_text (ty : RegType) : ofName? ty.text = some ty := by
  cases ty with
  | scalar w =>
    have htext : (text (scalar w)).toList = 's' :: Nat.toDigits 10 w.toNat := by
      simp [text]
    rw [ofName?, htext, sized?_toDigits]
  | pointer w =>
    have htext : (text (pointer w)).toList = 'p' :: Nat.toDigits 10 w.toNat := by
      simp [text]
    have hscalar : sized? 's' ('p' :: Nat.toDigits 10 w.toNat) = none := by
      rw [sized?, if_neg (by decide)]
    rw [ofName?, htext, sized?_toDigits, hscalar]
  | ofClass c => cases c <;> decide

theorem text_ne_empty (ty : RegType) : ty.text.toList ≠ [] := by
  cases ty with
  | scalar w => simp [text]
  | pointer w => simp [text]
  | ofClass c => cases c <;> decide

/-- The written form of a type has only characters of names in it, so that a reader takes it as one
name and stops behind it. -/
theorem isNameChar_of_mem_text {ty : RegType} {c : Char} (h : c ∈ ty.text.toList) :
    Reader.isNameChar c = true := by
  cases ty with
  -- a letter and a numeral
  | scalar w | pointer w =>
    simp only [text, String.toList_append, Text.toList_repr, List.mem_append] at h
    rcases h with h | h
    · rw [List.mem_singleton.1 h]
      decide
    · exact Reader.isNameChar_of_isDigit (Text.isDigit_of_mem_toDigits h)
  | ofClass k =>
    have hall : ∀ c ∈ k.name.toList, Reader.isNameChar c = true :=
      List.all_eq_true.1 (by cases k <;> decide)
    exact hall c h

end RegType

end Lowering
