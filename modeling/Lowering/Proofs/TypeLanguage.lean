import Lowering.Proofs.Literals
import Lowering.Proofs.TypeNames

/-!
# Lowering — the names of register types

A scalar or a pointer is written as a letter and its width in decimal digits, in as many of them as
one likes, as long as the width has 32 bits; a class is written by its name alone
(`RegType.IsName`). These are the names that are read, each as its type, and the written form of a
type is one of them (`RegType.ofName?_exact`).
-/

namespace Lowering

open Text.Radix

/-- A class is found by its name, and by no other. -/
theorem RegClass.ofName?_eq_some_iff {name : String} {c : RegClass} :
    ofName? name = some c ↔ name = c.name := by
  constructor
  · intro h
    unfold ofName? at h
    have hfound := List.find?_some h
    exact (eq_of_beq hfound).symm
  · rintro rfl
    exact ofName?_name c

/-- A number of 32 bits is read from the decimal numerals whose value is in range, leading zeros or
not. -/
theorem Text.decimal32?_eq_some_iff {cs : List Char} {w : UInt32} :
    decimal32? cs = some w ↔ decimal.IsNumeral cs ∧
      decimal.numeralValue cs < UInt32.size ∧ w = UInt32.ofNat (decimal.numeralValue cs) := by
  unfold decimal32?
  cases hvalue : decimal? cs with
  | some n =>
    obtain ⟨hnumeral, rfl⟩ := decimal?_eq_some_iff.1 hvalue
    simp [hnumeral, eq_comm]
  | none =>
    refine iff_of_false nofun fun h => ?_
    cases hvalue.symm.trans (decimal?_eq_some_iff.2 ⟨h.1, rfl⟩)

namespace RegType

variable {letter : Char} {cs : List Char} {w : UInt32} {name : String} {ty : RegType}

/-- The letter stands before a decimal numeral of 32 bits, whose value is the width. -/
def Sized (letter : Char) (cs : List Char) (w : UInt32) : Prop :=
  ∃ digits, cs = letter :: digits ∧ decimal.IsNumeral digits ∧
    decimal.numeralValue digits < UInt32.size ∧ w = UInt32.ofNat (decimal.numeralValue digits)

/-- The name is one of those that stand for the type. -/
def IsName (name : String) : RegType → Prop
  | scalar w => Sized 's' name.toList w
  | pointer w => Sized 'p' name.toList w
  | ofClass c => name = c.name

/-- A width is read behind a letter exactly if the name is this letter and the numeral of the
width. -/
theorem sized?_eq_some_iff : sized? letter cs = some w ↔ Sized letter cs w := by
  cases cs with
  | nil =>
    refine iff_of_false (Option.some_ne_none w).symm ?_
    rintro ⟨_, hname, _⟩
    cases hname
  | cons c digits =>
    by_cases hc : c = letter
    · rw [sized?, if_pos hc, Text.decimal32?_eq_some_iff]
      constructor
      · intro hwidth
        exact ⟨digits, congrArg (· :: digits) hc, hwidth⟩
      · rintro ⟨_, hname, hwidth⟩
        rwa [(List.cons.inj hname).2]
    · rw [sized?, if_neg hc]
      refine iff_of_false (Option.some_ne_none w).symm ?_
      rintro ⟨_, hname, _⟩
      exact hc (List.cons.inj hname).1

/-- Behind another letter no width is read. -/
theorem Sized.sized?_eq_none (h : Sized letter cs w) {other : Char} (hother : letter ≠ other) :
    sized? other cs = none := by
  obtain ⟨digits, rfl, _⟩ := h
  exact if_neg hother

/-- A name is read as a type exactly if it is a name of the type. The three forms do not overlap: no
class is named like a scalar or a pointer, so the order in which they are tried does not matter. -/
theorem ofName?_eq_some_iff : ofName? name = some ty ↔ IsName name ty := by
  constructor
  · intro h
    unfold ofName? at h
    split at h
    · next hscalar =>
      cases h
      exact sized?_eq_some_iff.1 hscalar
    · next hpointer =>
      cases h
      exact sized?_eq_some_iff.1 hpointer
    · obtain ⟨c, hclass, rfl⟩ := Option.map_eq_some_iff.1 h
      exact RegClass.ofName?_eq_some_iff.1 hclass
  · intro h
    cases ty with
    | scalar w =>
      have hsized : Sized 's' name.toList w := h
      rw [ofName?, sized?_eq_some_iff.2 hsized]
    | pointer w =>
      have hsized : Sized 'p' name.toList w := h
      rw [ofName?, hsized.sized?_eq_none (by decide), sized?_eq_some_iff.2 hsized]
    | ofClass c =>
      -- a name of a class reads as neither of the other forms
      obtain rfl : name = c.name := h
      exact ofName?_text (ofClass c)

/-- A type is read from its written form, and a name as the type that it stands for, if there is
one. -/
theorem ofName?_exact :
    (∀ ty, ofName? (text ty) = some ty) ∧
      ∀ name ty, ofName? name = some ty ↔ IsName name ty :=
  ⟨ofName?_text, fun _ _ => ofName?_eq_some_iff⟩

example : ofName? "s00000000004294967295" = some (scalar 4294967295) := by decide

example : ofName? "s4294967296" = none := by decide

end RegType

end Lowering
