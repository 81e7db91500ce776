import Lowering.Proofs.BatchReports
import Lowering.Proofs.WordAccess

/-!
# Lowering — patching one field

A value is merged into the field of a fixup bit by bit, whatever the code holds: each bit of the field
that is set in what is stored for the value is set, and no other bit of the code changes. Of the two
pieces of an upper part nothing is written but the pieces, and a generic kind keeps to the bytes of
its field. A fixup that does not fit is refused and leaves everything as it was
(`Fixup.apply_exact`).
-/

namespace Lowering

namespace FixupKind

variable {k : FixupKind} {l : Layout}

theorem offset_of_generic (hk : k.isTarget = false) (hl : k.layout = .ok l) : l.offset = 0 := by
  obtain ⟨l', hl', hoffset, _⟩ := exists_layout_generic hk
  cases hl.symm.trans hl'
  exact hoffset

/-- An instruction for the target's kinds, and for the others as many bytes as their field has. -/
theorem wordSize_eq_ite (hl : k.layout = .ok l) :
    k.wordSize = if k.isTarget then instrBytes else (l.width + 7) / 8 := by
  unfold wordSize numBytes
  rw [hl]
  cases hk : k.isTarget with
  | true => rfl
  | false => simp [offset_of_generic hk hl]

end FixupKind

namespace Fixup

variable {f : Fixup} {l : Layout} {a b : Assembly} {v : Int64}

/-- Without a sink nothing is reported, and every value is stored in some way. A value that is out
of range is left to wrap in its field. -/
theorem after_adjust (hl : f.kind.HasLayout l) (v : Int64) :
    a.after (f.adjust v false) = (.ok (Int64.ofBitVec (f.kind.adjusted v)), a) := by
  unfold adjust
  simp only [Assembly.after_bind, Assembly.after_liftExcept, hl.layout, Bool.and_false,
    Bool.false_eq_true, if_false, hl.stored]

section Patched

variable (hbits : ∀ p, b.code.bit p = true ↔ a.code.bit p = true ∨ { f with value := v }.Sets p)
include hbits

/-- A bit that has changed is one that the fixup can write. Patching only sets bits, so what is not
set by it stays. -/
theorem writes_of_changed {p : Nat} (h : b.code.bit p ≠ a.code.bit p) : f.Writes p := by
  by_contra hp
  apply h
  rw [Bool.eq_iff_iff, hbits]
  exact or_iff_left fun hset => hp hset.1

/-- A byte none of whose bits the fixup can write is as it was. -/
theorem getElem?_of_not_writes (hsize : b.code.size = a.code.size) {i : Nat}
    (h : ∀ p, 8 * i ≤ p → p < 8 * (i + 1) → ¬ f.Writes p) :
    b.code.bytes[i]? = a.code.bytes[i]? := by
  refine CodeBuffer.getElem?_congr hsize fun p hle hlt => ?_
  by_contra hp
  exact h p hle hlt (writes_of_changed hbits hp)

end Patched

/-- The bits of a generic kind are those of the bytes that its field covers. -/
theorem writes_generic (hk : f.kind.isTarget = false) (hl : f.kind.layout = .ok l) {p : Nat}
    (h : f.Writes p) : 8 * f.offset ≤ p ∧ p < 8 * (f.offset + (l.width + 7) / 8) := by
  have hne : f.kind ≠ .hi19 := by
    intro heq
    rw [heq] at hk
    cases hk
  obtain ⟨hle, hin⟩ := h
  unfold FixupKind.InField FixupKind.field at hin
  rw [if_neg hne, hl] at hin
  have hoffset := FixupKind.offset_of_generic hk hl
  simp only [hoffset] at hin
  omega

/-- Patching a value either completes or is refused, and is refused exactly if the fixup is of no kind
or its word does not lie inside the code; then nothing has changed. Where it completes, the bits of
the field that are set in what is stored for the value are set, and every other bit is what it was. -/
theorem apply_exact (f : Fixup) (v : Int64) (a : Assembly) :
    (¬ (f.kind.Valid ∧ f.offset + f.kind.wordSize ≤ a.code.size) ∧
        a.after (f.apply v) = (.error (f.fault a.code.size), a)) ∨
      (f.kind.Valid ∧ f.offset + f.kind.wordSize ≤ a.code.size) ∧
        ∃ l stored b, f.kind.layout = .ok l ∧
          (f.kind.wordSize = if f.kind.isTarget then 4 else (l.width + 7) / 8) ∧
          a.after (f.adjust v false) = (.ok stored, a) ∧
          a.after (f.apply v) = (.ok (), b) ∧ b.code.size = a.code.size ∧ b.diags = a.diags ∧
          (∀ p, b.code.bit p = true ↔ a.code.bit p = true ∨
            (8 * f.offset + l.offset ≤ p ∧ p < 8 * f.offset + l.offset + l.width ∧
              stored.toBitVec.getLsbD (p - 8 * f.offset - l.offset) = true)) ∧
          (f.kind = .hi19 → ∀ p, b.code.bit p ≠ a.code.bit p → 8 * f.offset ≤ p ∧
            (p - 8 * f.offset < 5 ∨ (10 ≤ p - 8 * f.offset ∧ p - 8 * f.offset < 24))) ∧
          (f.kind.isTarget = false → ∀ i, i < f.offset ∨ f.offset + (l.width + 7) / 8 ≤ i →
            b.code.bytes[i]? = a.code.bytes[i]?) := by
  by_cases hfits : f.kind.Valid ∧ f.offset + f.kind.wordSize ≤ a.code.size
  · right
    obtain ⟨hkind, hword⟩ := hfits
    obtain ⟨l, hl⟩ := hkind.hasLayout
    obtain ⟨b, hb, hsize, hdiags, hbits⟩ := after_apply hl (hl.wordSize_eq ▸ hword) v
    refine ⟨⟨hkind, hword⟩, l, _, b, hl.layout, FixupKind.wordSize_eq_ite hl.layout,
      after_adjust hl v, hb, hsize, hdiags, ?_, ?_, ?_⟩
    · intro p
      rw [hbits, sets_iff hl, Int64.toBitVec_ofBitVec]
    · intro hhi p hp
      -- of an upper part only the two pieces are in the field
      obtain ⟨hle, hin⟩ := writes_of_changed hbits hp
      unfold FixupKind.InField at hin
      rw [if_pos hhi] at hin
      exact ⟨hle, hin⟩
    · intro hk i hi
      -- a bit that a generic kind can write lies in the bytes of its field
      refine getElem?_of_not_writes hbits hsize fun p hle hlt hp => ?_
      have hcovered := writes_generic hk hl.layout hp
      omega
  · left
    exact ⟨hfits, after_apply_of_not_fits (fun h => hfits ⟨h.kind, h.word⟩) v⟩

end Fixup

end Lowering
