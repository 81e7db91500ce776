import Std.Data.ExtTreeMap

/-!
# Lowering — virtual registers

A virtual register is named by a 32-bit number and written `%n`. Registers are ordered by that
number, lawfully (`Reg.compare_eq_iff`), so that a table keyed by registers is determined by
what it answers and lists its entries in ascending order.
-/

namespace Lowering

/-- A virtual register, named by its number. -/
structure Reg where
  index : UInt32
deriving DecidableEq

namespace Reg

/-- Registers are ordered by their numbers. -/
instance : Ord Reg := ⟨compareOn Reg.index⟩

instance : Std.TransOrd Reg :=
  inferInstanceAs (Std.TransCmp (compareOn Reg.index))

/-- Two registers compare as equal only if they are the same one. A table keyed by registers is
lawful because of it. -/
theorem compare_eq_iff {a b : Reg} : compare a b = .eq ↔ a = b := by
  rw [show compare a b = compare a.index b.index from rfl, Std.LawfulEqOrd.compare_eq_iff_eq]
  exact ⟨fun h => by cases a; cases b; simp_all, congrArg index⟩

instance : Std.LawfulEqOrd Reg where
  eq_of_compare := compare_eq_iff.1

/-- The written form: a percent sign and the number in decimal. -/
def text (r : Reg) : String :=
  "%" ++ r.index.toNat.repr

end Reg

/-- A table keyed by registers. Two tables with the same answers are equal. -/
abbrev RegMap (α : Type) := Std.ExtTreeMap Reg α

namespace RegMap

variable {α : Type}

/-- What a table answers after an entry was put in: the new entry for its register, and the old
answer for any other. -/
theorem getElem?_insert (m : RegMap α) (r s : Reg) (x : α) :
    (m.insert r x)[s]? = if r = s then some x else m[s]? := by
  rw [Std.ExtTreeMap.getElem?_insert]
  simp only [Reg.compare_eq_iff]

theorem getElem?_erase (m : RegMap α) (r s : Reg) :
    (m.erase r)[s]? = if r = s then none else m[s]? := by
  rw [Std.ExtTreeMap.getElem?_erase]
  simp only [Reg.compare_eq_iff]

end RegMap

end Lowering
