import Lowering.Fixup.Fault

/-!
# Lowering — bit ranges of a word

A bit range is a run of bits of a 64-bit word, given by its lowest bit and its width. A field move
takes a bit range of one word to another place of another word. Bits that a shift moves past the
top are dropped, and a shift by the width of the word or more is a fault.
-/

namespace Lowering

/-- A word as it is read, combined and written. -/
abbrev Word := BitVec 64

namespace Word

/-- The word whose `n` low bits are set, all of them from 64 on. -/
def lowBits (n : Nat) : Word :=
  BitVec.allOnes 64 >>> (64 - n)

/-- The word shifted left. Bits that pass the top are dropped; only a distance of the whole width or
more is a fault. -/
def shiftLeft (w : Word) (n : Nat) : Except PatchFault Word :=
  if n < 64 then .ok (w <<< n) else .error .shiftLeftOverflow

/-- The word shifted right, with the same condition on the distance. -/
def shiftRight (w : Word) (n : Nat) : Except PatchFault Word :=
  if n < 64 then .ok (w >>> n) else .error .shiftRightOverflow

/-- Which bits of `lowBits n` are set. All reasoning about masks is about their bits and goes
through this; `n` may be larger than the word. -/
theorem getLsbD_lowBits (n k : Nat) :
    (lowBits n).getLsbD k = decide (k < n ∧ k < 64) := by
  simp only [lowBits, BitVec.getLsbD_ushiftRight, BitVec.getLsbD_allOnes]
  exact decide_eq_decide.2 (by omega)

end Word

/-- A run of bits of a word, from the lowest one up. A range may reach past the top of the word, and
then it covers fewer bits than its width says. -/
structure BitRange where
  lsb : Nat
  width : Nat
deriving DecidableEq

namespace BitRange

/-- Bit `k` is one of the bits of the range. -/
def Covers (r : BitRange) (k : Nat) : Prop :=
  r.lsb ≤ k ∧ k < r.lsb + r.width

instance (r : BitRange) (k : Nat) : Decidable (r.Covers k) :=
  inferInstanceAs (Decidable (_ ∧ _))

/-- The word in which the bits of the range are set. -/
def mask (r : BitRange) : Except PatchFault Word :=
  (Word.lowBits r.width).shiftLeft r.lsb

/-- A range that begins inside the word has a mask, and its bits are those that the range covers.
The width is not bounded: what reaches past the top of the word is cut off. -/
theorem mask_of_lt {r : BitRange} (h : r.lsb < 64) :
    ∃ x, r.mask = .ok x ∧ ∀ k, x.getLsbD k = decide (r.Covers k ∧ k < 64) := by
  refine ⟨Word.lowBits r.width <<< r.lsb, if_pos h, ?_⟩
  intro k
  rw [BitVec.getLsbD_shiftLeft, Word.getLsbD_lowBits]
  simp only [← decide_not, ← Bool.decide_and]
  exact decide_eq_decide.2 (by unfold Covers; omega)

/-- The bits of the range, right aligned. -/
def extract (r : BitRange) (w : Word) : Except PatchFault Word := do
  return (← w.shiftRight r.lsb) &&& Word.lowBits r.width

end BitRange

/-- Takes a bit range of a word to the bits from `toLsb` on. -/
structure FieldMove where
  source : BitRange
  toLsb : Nat
deriving DecidableEq

namespace FieldMove

/-- The bits of the source at their new place, with every other bit clear. -/
def apply (m : FieldMove) (w : Word) : Except PatchFault Word := do
  (← m.source.extract w).shiftLeft m.toLsb

/-- All moves of a word, merged into one. Bits that no move takes are dropped. -/
def applyAll (moves : List FieldMove) (w : Word) : Except PatchFault Word :=
  moves.foldlM (fun merged m => do return merged ||| (← m.apply w)) 0

end FieldMove

end Lowering
