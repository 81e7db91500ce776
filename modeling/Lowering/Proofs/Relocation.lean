import Lowering.Proofs.FixupBits
import Mathlib.Data.List.Basic
import Mathlib.Data.List.Pairwise

/-!
# Lowering — relocating a batch of fixups

A batch of fixups that all fit is patched to its end, and a bit of the code is set afterwards if it
was set before or one of the fixups sets it (`Fixup.after_resolveAll`). Words of different sizes may
share bytes or straddle one another: the law of a single fixup speaks of bits, so nothing has to be
known about how the words lie.

Where the fixups write to different bits, all clear before, every field holds exactly its value
(`Fixup.resolveAll_exact`).
-/

namespace Lowering.Fixup

variable {a : Assembly} {fs : List Fixup}

/-- The state after a batch that fits. Induction on the batch, over all states: patching a fixup
leaves the size of the code, so that the other fixups still fit. -/
theorem after_resolveAll (hfits : ∀ f ∈ fs, f.Fits a.code.size) :
    ∃ b, a.after (resolveAll fs) = (.ok (), b) ∧ b.code.size = a.code.size ∧
      ∀ p, b.code.bit p = true ↔ a.code.bit p = true ∨ ∃ f ∈ fs, f.Sets p := by
  induction fs generalizing a with
  | nil => exact ⟨a, rfl, rfl, by simp⟩
  | cons f fs ih =>
    obtain ⟨b, hresolve, hsize, _, hbits⟩ := after_resolve (hfits f (by simp))
    -- fitting depends on the size alone, and the patch kept it
    have hrest : ∀ g ∈ fs, g.Fits b.code.size := fun g hg => hsize ▸ hfits g (by simp [hg])
    obtain ⟨c, hresolveAll, hsize', hbits'⟩ := ih hrest
    refine ⟨c, ?_, hsize'.trans hsize, fun p => ?_⟩
    · rw [resolveAll, Assembly.after_bind, hresolve]
      exact hresolveAll
    · rw [hbits', hbits, List.exists_mem_cons_iff, or_assoc]

/-- The fixups write to different bits. -/
def Disjoint (f g : Fixup) : Prop :=
  ∀ p, ¬ (f.Writes p ∧ g.Writes p)

instance : Std.Symm Disjoint where
  symm _ _ h p hp := h p hp.symm

/-- Of fixups that write to different bits, only one writes to a bit. -/
theorem eq_of_writes (hdisjoint : fs.Pairwise Disjoint) {f g : Fixup} (hf : f ∈ fs) (hg : g ∈ fs)
    {p : Nat} (hfp : f.Writes p) (hgp : g.Writes p) : f = g := by
  by_contra hne
  exact hdisjoint.forall hf hg hne p ⟨hfp, hgp⟩

/-- Fixups that write to different bits of the code, all clear before, are patched bit by bit: every
field holds its value, and every other bit is what it was. -/
theorem resolveAll_exact (hfits : ∀ f ∈ fs, f.Fits a.code.size)
    (hdisjoint : fs.Pairwise Disjoint)
    (hclear : ∀ f ∈ fs, ∀ p, f.Writes p → a.code.bit p = false) :
    ∃ b, a.after (resolveAll fs) = (.ok (), b) ∧ b.code.size = a.code.size ∧
      (∀ f ∈ fs, ∀ p, f.Writes p → b.code.bit p = f.valueBit p) ∧
      ∀ p, (∀ f ∈ fs, ¬ f.Writes p) → b.code.bit p = a.code.bit p := by
  obtain ⟨b, hresolveAll, hsize, hbits⟩ := after_resolveAll hfits
  refine ⟨b, hresolveAll, hsize, ?_, ?_⟩
  · intro f hf p hp
    rw [Bool.eq_iff_iff, hbits, hclear f hf p hp]
    -- the bit was clear, and only this fixup can have set it
    constructor
    · rintro (h | ⟨g, hg, hgp, hset⟩)
      · cases h
      · rwa [eq_of_writes hdisjoint hf hg hp hgp]
    · exact fun hset => .inr ⟨f, hf, hp, hset⟩
  · intro p hp
    rw [Bool.eq_iff_iff, hbits]
    constructor
    · rintro (h | ⟨g, hg, hgp, _⟩)
      · exact h
      · exact absurd hgp (hp g hg)
    · exact .inl

/-- The upper part of a constant, a byte of data in the last byte of its word, and a branch. -/
theorem resolveAll_exact_shared :
    let a := Assembly.ofCode (.zeroed 8)
    let fs : List Fixup := [⟨.hi19, 0, 0x12345678, .unknown⟩, ⟨.data1, 3, -1, .unknown⟩,
      ⟨.branch, 4, 100, .unknown⟩]
    ∃ b, a.after (resolveAll fs) = (.ok (), b) ∧ b.code.size = 8 ∧
      b.code.bit 1 = true ∧ b.code.bit 31 = true ∧ b.code.bit 32 = false := by
  intro a fs
  have hhi (p : Nat) : Writes ⟨.hi19, 0, 0x12345678, .unknown⟩ p ↔ p < 5 ∨ (10 ≤ p ∧ p < 24) := by
    simp [Writes, FixupKind.InField]
  have hdata (p : Nat) : Writes ⟨.data1, 3, -1, .unknown⟩ p ↔ 24 ≤ p ∧ p < 32 := by
    simp only [Writes, FixupKind.InField, show FixupKind.data1.field = ⟨0, 8⟩ from rfl]
    rw [if_neg (by decide)]
    omega
  have hbranch (p : Nat) : Writes ⟨.branch, 4, 100, .unknown⟩ p ↔ 37 ≤ p ∧ p < 57 := by
    simp only [Writes, FixupKind.InField, show FixupKind.branch.field = ⟨5, 20⟩ from rfl]
    rw [if_neg (by decide)]
    omega
  have hfits : ∀ f ∈ fs, f.Fits a.code.size := by
    simp only [fs, List.forall_mem_cons]
    exact ⟨⟨by decide, by decide⟩, ⟨by decide, by decide⟩, ⟨by decide, by decide⟩, by simp⟩
  have hdisjoint : fs.Pairwise Disjoint := by
    simp only [fs, List.pairwise_cons, List.forall_mem_cons, Disjoint, hhi, hdata, hbranch]
    refine ⟨⟨fun p hp => by omega, fun p hp => by omega, by simp⟩,
      ⟨fun p hp => by omega, by simp⟩, by simp, .nil⟩
  have hclear : ∀ f ∈ fs, ∀ p, f.Writes p → a.code.bit p = false :=
    fun f _ p _ => CodeBuffer.bit_zeroed 8 p
  obtain ⟨b, hresolve, hsize, hbits, hother⟩ := resolveAll_exact hfits hdisjoint hclear
  refine ⟨b, hresolve, hsize, ?_, ?_, ?_⟩
  · exact hbits ⟨.hi19, 0, 0x12345678, .unknown⟩ (by simp [fs]) 1 ((hhi 1).2 (by decide))
  · exact hbits ⟨.data1, 3, -1, .unknown⟩ (by simp [fs]) 31 ((hdata 31).2 (by decide))
  · refine (hother 32 ?_).trans (CodeBuffer.bit_zeroed 8 32)
    simp only [fs, List.forall_mem_cons, hhi, hdata, hbranch]
    exact ⟨by decide, by decide, by decide, by simp⟩

end Lowering.Fixup
