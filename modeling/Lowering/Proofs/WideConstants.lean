import Lowering.Proofs.BatchReports
import Lowering.Proofs.FieldMoves

/-!
# Lowering — constants in two instructions

A constant of 32 bits does not fit an instruction. One instruction carries its upper part in two
pieces, another its lower part in one, and `CodeBuffer.constant` is what the two make when they are
executed. Patching both with a value stores the value modulo `2 ^ 32`: no bit of it is lost where
the parts meet, none comes twice, and nothing is reported, since neither part is checked
(`Fixup.resolve_constant`).
-/

namespace Lowering

/-! ## The constant of two instructions

What the hardware makes of the two instructions, said without a mention of patching. The moves here
are those of the kinds the other way around, from the fields of an instruction to the bits of the
constant. -/

/-- The bits of the upper part, from the two pieces of the instruction that carries it. -/
def upperMoves : List FieldMove :=
  [⟨⟨0, 5⟩, 13⟩, ⟨⟨10, 14⟩, 18⟩]

/-- The bits of the lower part, from the instruction that carries it. -/
def lowerMoves : List FieldMove :=
  [⟨⟨10, 13⟩, 0⟩]

/-- The constant that is carried by the instructions at the two offsets. -/
def CodeBuffer.constant (code : CodeBuffer) (upper lower : Nat) : Except PatchFault Word := do
  let high ← FieldMove.applyAll upperMoves (← code.read upper FixupKind.instrBytes)
  let low ← FieldMove.applyAll lowerMoves (← code.read lower FixupKind.instrBytes)
  return high ||| low

theorem upperMoves_inside : ∀ m ∈ upperMoves, m.Inside := by
  simp [upperMoves, FieldMove.Inside]

theorem lowerMoves_inside : ∀ m ∈ lowerMoves, m.Inside := by
  simp [lowerMoves, FieldMove.Inside]

/-- Every bit of the constant comes from one of three pieces of the two instructions, and all other
bits of it are clear. -/
theorem CodeBuffer.constant_of_inside {code : CodeBuffer} {upper lower : Nat}
    (hupper : upper + FixupKind.instrBytes ≤ code.size)
    (hlower : lower + FixupKind.instrBytes ≤ code.size) :
    ∃ c, code.constant upper lower = .ok c ∧ ∀ k, c.getLsbD k = true ↔
      (13 ≤ k ∧ k < 18 ∧ code.bit (8 * upper + (k - 13)) = true) ∨
        (18 ≤ k ∧ k < 32 ∧ code.bit (8 * upper + (10 + (k - 18))) = true) ∨
        (k < 13 ∧ code.bit (8 * lower + (10 + k)) = true) := by
  have hbytes : FixupKind.instrBytes = 4 := rfl
  obtain ⟨w, hw, hwBits⟩ := CodeBuffer.read_of_inside (by decide) hupper
  obtain ⟨w', hw', hwBits'⟩ := CodeBuffer.read_of_inside (by decide) hlower
  obtain ⟨high, hhigh, hhighBits⟩ := FieldMove.applyAll_of_inside upperMoves_inside w
  obtain ⟨low, hlow, hlowBits⟩ := FieldMove.applyAll_of_inside lowerMoves_inside w'
  refine ⟨high ||| low, ?_, ?_⟩
  · unfold CodeBuffer.constant
    simp only [hw, hw', bind, Except.bind, hhigh, hlow]
    rfl
  · intro k
    rw [BitVec.getLsbD_or, Bool.or_eq_true, hhighBits, hlowBits]
    simp only [upperMoves, lowerMoves, List.mem_cons, List.not_mem_nil, or_false, exists_eq_or_imp,
      exists_eq_left, FieldMove.Sets, hwBits, hwBits', Bool.and_eq_true, decide_eq_true_eq]
    rw [or_assoc, Nat.zero_add, Nat.zero_add, Nat.sub_zero, hbytes]
    -- one of the three moves, each from inside its instruction
    refine or_congr ?_ (or_congr ?_ ?_)
    · exact ⟨fun ⟨hle, hlt, _, _, h⟩ => ⟨hle, hlt, h⟩,
        fun ⟨hle, hlt, h⟩ => ⟨hle, hlt, by omega, by omega, h⟩⟩
    · exact ⟨fun ⟨hle, hlt, _, _, h⟩ => ⟨hle, hlt, h⟩,
        fun ⟨hle, hlt, h⟩ => ⟨hle, hlt, by omega, by omega, h⟩⟩
    · exact ⟨fun ⟨_, hlt, _, _, h⟩ => ⟨hlt, h⟩,
        fun ⟨hlt, h⟩ => ⟨Nat.zero_le k, hlt, by omega, by omega, h⟩⟩

/-- The low half of a word, as a number. It is the value modulo `2 ^ 32`, also of a negative value,
since the low bits of a number in two's complement are its remainder. -/
theorem toNat_of_low_half {c : Word} {v : Int64}
    (h : ∀ k, c.getLsbD k = true ↔ k < 32 ∧ v.toBitVec.getLsbD k = true) :
    (c.toNat : Int) = v.toInt % 2 ^ 32 := by
  have hc : c = (v.toBitVec.setWidth 32).setWidth 64 := by
    apply BitVec.eq_of_getLsbD_eq
    intro k hk
    rw [Bool.eq_iff_iff, h, BitVec.getLsbD_setWidth, BitVec.getLsbD_setWidth]
    simp [hk]
  have hnat : c.toNat = v.toBitVec.toNat % 2 ^ 32 := by
    rw [hc, BitVec.toNat_setWidth, BitVec.toNat_setWidth]
    omega
  -- the two readings of a word differ by a multiple of `2 ^ 64`
  have hint : v.toInt % 2 ^ 32 = (v.toBitVec.toNat : Int) % 2 ^ 32 := by
    rw [← Int64.toInt_toBitVec, BitVec.toInt_eq_toNat_cond]
    split
    · rfl
    · omega
  rw [hnat, hint]
  norm_cast

/-- The instructions carry the constant that their three pieces are taken from. The pieces are given
by their bits, with no word about how they came into the code. -/
theorem CodeBuffer.constant_of_pieces {code : CodeBuffer} {upper lower : Nat} {v : Int64}
    (hupper : upper + FixupKind.instrBytes ≤ code.size)
    (hlower : lower + FixupKind.instrBytes ≤ code.size)
    (hmiddle : ∀ j < 5, code.bit (8 * upper + j) = v.toBitVec.getLsbD (13 + j))
    (hhigh : ∀ j < 14, code.bit (8 * upper + (10 + j)) = v.toBitVec.getLsbD (18 + j))
    (hlow : ∀ j < 13, code.bit (8 * lower + (10 + j)) = v.toBitVec.getLsbD j) :
    ∃ c, code.constant upper lower = .ok c ∧ (c.toNat : Int) = v.toInt % 2 ^ 32 := by
  obtain ⟨c, hc, hbits⟩ := CodeBuffer.constant_of_inside hupper hlower
  refine ⟨c, hc, toNat_of_low_half ?_⟩
  intro k
  rw [hbits]
  constructor
  · intro h
    obtain ⟨hle, hlt, hset⟩ | ⟨hle, hlt, hset⟩ | ⟨hlt, hset⟩ := h
    · rw [hmiddle _ (by omega), Nat.add_sub_of_le hle] at hset
      exact ⟨by omega, hset⟩
    · rw [hhigh _ (by omega), Nat.add_sub_of_le hle] at hset
      exact ⟨hlt, hset⟩
    · rw [hlow _ hlt] at hset
      exact ⟨by omega, hset⟩
  · intro h
    obtain ⟨hlt, hset⟩ := h
    -- the seams of the pieces are at bits 13 and 18
    by_cases hthirteen : k < 13
    · right
      right
      exact ⟨hthirteen, (hlow k hthirteen).trans hset⟩
    · by_cases heighteen : k < 18
      · left
        rw [hmiddle _ (by omega), Nat.add_sub_of_le (by omega)]
        exact ⟨by omega, heighteen, hset⟩
      · right
        left
        rw [hhigh _ (by omega), Nat.add_sub_of_le (by omega)]
        exact ⟨by omega, hlt, hset⟩

/-! ## Patching the two instructions

The two fixups are patched as one batch. They write to different instructions, so each piece holds
what its own fixup has put there. -/

namespace Fixup

variable {a b : Assembly} {f : Fixup} {fs : List Fixup} {offset upper lower : Nat} {v : Int64}
  {loc loc' : SourceLoc} {p : Nat}

/-- A bit that was clear, and that no other fixup of the batch writes, is the one of the value. -/
theorem bit_of_writes (h : a.after (resolveAll fs) = (.ok (), b)) (hf : f ∈ fs) (hp : f.Writes p)
    (hclear : a.code.bit p = false) (halone : ∀ g ∈ fs, g.Writes p → g = f) :
    b.code.bit p = f.valueBit p := by
  obtain ⟨_, _, _, hbits⟩ := after_resolveAll_eq_ok h
  rw [Bool.eq_iff_iff, hbits, hclear]
  constructor
  · intro hset
    obtain hset | ⟨g, hg, hgp, hset⟩ := hset
    · cases hset
    · rwa [← halone g hg hgp]
  · exact fun hset => .inr ⟨f, hf, hp, hset⟩

/-- A bit that no fixup of the batch writes is left as it was. -/
theorem bit_of_not_writes (h : a.after (resolveAll fs) = (.ok (), b))
    (hp : ∀ f ∈ fs, ¬ f.Writes p) : b.code.bit p = a.code.bit p := by
  obtain ⟨_, _, _, hbits⟩ := after_resolveAll_eq_ok h
  rw [Bool.eq_iff_iff, hbits]
  constructor
  · intro hset
    obtain hset | ⟨f, hf, hfp, _⟩ := hset
    · exact hset
    · exact absurd hfp (hp f hf)
  · exact .inl

theorem writes_upper : Writes ⟨.hi19, offset, v, loc⟩ p ↔
    8 * offset ≤ p ∧ (p - 8 * offset < 5 ∨ (10 ≤ p - 8 * offset ∧ p - 8 * offset < 24)) := by
  unfold Writes FixupKind.InField
  rw [if_pos rfl]

theorem writes_lower : Writes ⟨.immLo13, offset, v, loc⟩ p ↔
    8 * offset ≤ p ∧ 10 ≤ p - 8 * offset ∧ p - 8 * offset < 23 := by
  have hne : FixupKind.immLo13 ≠ FixupKind.hi19 := by decide
  have hfield : FixupKind.immLo13.field = ⟨10, 13⟩ := rfl
  unfold Writes FixupKind.InField
  rw [if_neg hne, hfield]
  exact Iff.rfl

/-- The lower of the two pieces of the upper part. -/
theorem valueBit_middle {j : Nat} (hj : j < 5) :
    valueBit ⟨.hi19, offset, v, loc⟩ (8 * offset + j) = v.toBitVec.getLsbD (13 + j) := by
  have hfield : FixupKind.hi19.field = ⟨0, 32⟩ := rfl
  unfold valueBit
  rw [hfield, Nat.add_sub_cancel_left, Nat.sub_zero, FixupKind.getLsbD_adjusted_hi19]
  simp [hj, show ¬ 10 ≤ j by omega]

/-- The higher of the two pieces of the upper part. -/
theorem valueBit_high {j : Nat} (hj : j < 14) :
    valueBit ⟨.hi19, offset, v, loc⟩ (8 * offset + (10 + j)) = v.toBitVec.getLsbD (18 + j) := by
  have hfield : FixupKind.hi19.field = ⟨0, 32⟩ := rfl
  unfold valueBit
  rw [hfield, Nat.add_sub_cancel_left, Nat.sub_zero, FixupKind.getLsbD_adjusted_hi19,
    show 8 + (10 + j) = 18 + j by omega]
  simp [show ¬ 10 + j < 5 by omega, show 10 + j < 24 by omega]

theorem valueBit_low (j : Nat) :
    valueBit ⟨.immLo13, offset, v, loc⟩ (8 * offset + (10 + j)) = v.toBitVec.getLsbD j := by
  have hfield : FixupKind.immLo13.field = ⟨10, 13⟩ := rfl
  have hadjusted : FixupKind.immLo13.adjusted v = v.toBitVec := rfl
  unfold valueBit
  rw [hfield, hadjusted, Nat.add_sub_cancel_left, Nat.add_sub_cancel_left]

/-- A fixup of an instruction fits if the instruction is inside the code. -/
theorem Fits.of_instr {k : FixupKind} {size : Nat} (hkind : k.Valid)
    (hword : k.wordSize = FixupKind.instrBytes) (h : offset + FixupKind.instrBytes ≤ size) :
    Fits ⟨k, offset, v, loc⟩ size := by
  refine ⟨hkind, ?_⟩
  rwa [hword]

/-- Two instructions that do not overlap, with the fields of a constant clear, are patched with the
two parts of a value. They carry the value modulo `2 ^ 32` then; nothing is reported, and no bit
outside the two fields is changed. -/
theorem resolve_constant (hupper : upper + FixupKind.instrBytes ≤ a.code.size)
    (hlower : lower + FixupKind.instrBytes ≤ a.code.size)
    (hapart : upper + FixupKind.instrBytes ≤ lower ∨ lower + FixupKind.instrBytes ≤ upper)
    (hclear : ∀ j, j < 5 ∨ (10 ≤ j ∧ j < 24) → a.code.bit (8 * upper + j) = false)
    (hclear' : ∀ j, 10 ≤ j ∧ j < 23 → a.code.bit (8 * lower + j) = false) (v : Int64)
    (loc loc' : SourceLoc) :
    ∃ b c, a.after (resolveAll [⟨.hi19, upper, v, loc⟩, ⟨.immLo13, lower, v, loc'⟩]) =
        (.ok (), b) ∧
      b.code.constant upper lower = .ok c ∧ (c.toNat : Int) = v.toInt % 2 ^ 32 ∧
      b.diags = a.diags ∧ b.code.size = a.code.size ∧
      ∀ p, (∀ j, j < 5 ∨ (10 ≤ j ∧ j < 24) → p ≠ 8 * upper + j) →
        (∀ j, 10 ≤ j ∧ j < 23 → p ≠ 8 * lower + j) → b.code.bit p = a.code.bit p := by
  have hbytes : FixupKind.instrBytes = 4 := rfl
  have hfits : ∀ f ∈ [(⟨.hi19, upper, v, loc⟩ : Fixup), ⟨.immLo13, lower, v, loc'⟩],
      f.Fits a.code.size := by
    simp only [List.forall_mem_cons]
    exact ⟨.of_instr (by decide : FixupKind.hi19.Valid) rfl hupper,
      .of_instr (by decide : FixupKind.immLo13.Valid) rfl hlower, by simp⟩
  obtain ⟨b, hb, _⟩ := after_resolveAll hfits
  obtain ⟨_, hsize, hdiags, _⟩ := after_resolveAll_eq_ok hb
  -- each piece was clear, and the fixup of the other instruction does not reach it
  have hupperBit : ∀ j, j < 5 ∨ (10 ≤ j ∧ j < 24) → b.code.bit (8 * upper + j) =
      valueBit ⟨.hi19, upper, v, loc⟩ (8 * upper + j) := by
    intro j hj
    apply bit_of_writes hb List.mem_cons_self (writes_upper.2 (by omega)) (hclear j hj)
    simp only [List.forall_mem_cons, writes_lower]
    exact ⟨fun _ => trivial, fun h => by omega, by simp⟩
  have hlowerBit : ∀ j, 10 ≤ j ∧ j < 23 → b.code.bit (8 * lower + j) =
      valueBit ⟨.immLo13, lower, v, loc'⟩ (8 * lower + j) := by
    intro j hj
    apply bit_of_writes hb (by simp) (writes_lower.2 (by omega)) (hclear' j hj)
    simp only [List.forall_mem_cons, writes_upper]
    exact ⟨fun h => by omega, fun _ => trivial, by simp⟩
  have hmiddle : ∀ j < 5, b.code.bit (8 * upper + j) = v.toBitVec.getLsbD (13 + j) := by
    intro j hj
    rw [hupperBit j (.inl hj), valueBit_middle hj]
  have hhigh : ∀ j < 14, b.code.bit (8 * upper + (10 + j)) = v.toBitVec.getLsbD (18 + j) := by
    intro j hj
    rw [hupperBit (10 + j) (.inr (by omega)), valueBit_high hj]
  have hlow : ∀ j < 13, b.code.bit (8 * lower + (10 + j)) = v.toBitVec.getLsbD j := by
    intro j hj
    rw [hlowerBit (10 + j) (by omega), valueBit_low]
  obtain ⟨c, hc, hvalue⟩ := CodeBuffer.constant_of_pieces (hsize ▸ hupper) (hsize ▸ hlower)
    hmiddle hhigh hlow
  refine ⟨b, c, hb, hc, hvalue, ?_, hsize, ?_⟩
  · have hsilent : reports [⟨.hi19, upper, v, loc⟩, ⟨.immLo13, lower, v, loc'⟩] = [] := rfl
    rw [hdiags, hsilent, List.append_nil]
  · intro p hoffUpper hoffLower
    apply bit_of_not_writes hb
    simp only [List.forall_mem_cons, writes_upper, writes_lower]
    refine ⟨?_, ?_, by simp⟩
    · intro h
      exact hoffUpper _ h.2 (Nat.add_sub_of_le h.1).symm
    · intro h
      exact hoffLower _ h.2 (Nat.add_sub_of_le h.1).symm

/-- Two instructions with all their other bits set, and a value that has every bit set. -/
theorem resolve_constant_ones :
    let a := Assembly.ofCode ⟨[0xe0, 0x03, 0x00, 0xff, 0xff, 0x03, 0x80, 0xff]⟩
    ∃ b c, a.after (resolveAll [⟨.hi19, 0, -1, .unknown⟩, ⟨.immLo13, 4, -1, .unknown⟩]) =
        (.ok (), b) ∧
      b.code.constant 0 4 = .ok c ∧ (c.toNat : Int) = 4294967295 ∧ b.diags = [] ∧
      b.code.bit 5 = true := by
  intro a
  have hclear : ∀ j, j < 5 ∨ (10 ≤ j ∧ j < 24) → a.code.bit (8 * 0 + j) = false := by
    have hbounded : ∀ j < 24, j < 5 ∨ 10 ≤ j → a.code.bit (8 * 0 + j) = false := by decide
    intro j hj
    exact hbounded j (by omega) (by omega)
  have hclear' : ∀ j, 10 ≤ j ∧ j < 23 → a.code.bit (8 * 4 + j) = false := by
    have hbounded : ∀ j < 23, 10 ≤ j → a.code.bit (8 * 4 + j) = false := by decide
    intro j hj
    exact hbounded j hj.2 hj.1
  obtain ⟨b, c, hb, hc, hvalue, hdiags, _, hother⟩ :=
    resolve_constant (by decide) (by decide) (.inl (by decide)) hclear hclear' (-1) .unknown
      .unknown
  refine ⟨b, c, hb, hc, hvalue.trans (by decide), hdiags, ?_⟩
  rw [hother 5 (fun j hj => by omega) (fun j hj => by omega)]
  decide

end Fixup

end Lowering
