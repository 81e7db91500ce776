import Lowering.Proofs.Relocation
import Lowering.Proofs.SignedFields

/-!
# Lowering — values relative to the program counter

The hardware reads the field of a relative kind as a signed number and counts it from the program
counter, which is one instruction ahead (`Fixup.decoded`). What is checked is the value itself, and
what is stored is the value less the fetch offset. So a value is reported exactly if it is no signed
number of the field's width, and comes back from the field exactly if the stored number is one. The
two agree except at the ends of the range, for as many values at either end as the fetch offset
(`Fixup.resolve_pcRelative`): the lowest values of the range pass the check and do not come back
(`Fixup.resolve_lowest_branch`).
-/

namespace Lowering

/-! ## The relative kinds

There are three kinds whose values count from the program counter. What the proofs use of them is
that the field lies within an instruction, that it is a contiguous one and that it is wide enough
for the fetch offset. -/

namespace FixupKind

/-- The kinds whose values count from the program counter. -/
def PcRelative (k : FixupKind) : Prop :=
  k = memoryAccess ∨ k = branch ∨ k = labelAddress

/-- The name of the kind, as diagnostics give it. -/
def name (k : FixupKind) : String :=
  match k.layout with
  | .ok l => l.name
  | .error _ => ""

namespace PcRelative

variable {k : FixupKind}

theorem valid (h : k.PcRelative) : k.Valid := by
  rcases h with rfl | rfl | rfl <;> decide

theorem wordSize_eq (h : k.PcRelative) : k.wordSize = instrBytes := by
  rcases h with rfl | rfl | rfl <;> rfl

/-- The field lies in an instruction, and has room for the fetch offset on either side of zero. -/
theorem field_bounds (h : k.PcRelative) :
    4 ≤ k.field.width ∧ k.field.lsb + k.field.width ≤ 8 * instrBytes := by
  rcases h with rfl | rfl | rfl <;> decide

/-- What is stored is the value less the fetch offset, in 64 bits. It is the check of the range that
looks at the value itself. -/
theorem adjusted_eq (h : k.PcRelative) (v : Int64) : k.adjusted v = v.toBitVec - 4 :=
  if_pos h

/-- The field is a contiguous one: none of the relative kinds is split over two fields, so a bit is
in the field if it is within its width from its lowest bit on. -/
theorem inField_iff (h : k.PcRelative) (j : Nat) :
    k.InField j ↔ k.field.lsb ≤ j ∧ j < k.field.lsb + k.field.width := by
  have hne : k ≠ hi19 := by
    rcases h with rfl | rfl | rfl <;> decide
  unfold InField
  rw [if_neg hne]

/-- The layout of a relative kind is that of a signed field, without any moves. -/
theorem layout_eq (h : k.PcRelative) :
    k.layout = .ok ⟨k.name, k.field.lsb, k.field.width, true, []⟩ := by
  rcases h with rfl | rfl | rfl <;> rfl

end PcRelative

end FixupKind

/-! ## The field in the code

What the hardware makes of the field is a reader of its own over the code, so that a value that
comes back is a statement about the code and not about the bits that were stored. -/

namespace Fixup

open Layout (Signed)

variable {f : Fixup} {a : Assembly}

/-- The number that the hardware takes from the field of the fixup: the bits of the field as a
signed number, from the program counter. -/
def decoded (f : Fixup) (code : CodeBuffer) : Except PatchFault Int := do
  let word ← code.read f.offset FixupKind.instrBytes
  let bits ← f.kind.field.extract word
  return (bits.setWidth f.kind.field.width).toInt + Layout.fetchOffset.toInt

/-- The field is decoded from its bits, wherever they come from. The bits are compared with those of
a word `w` of which only the low ones matter, so `w` can be the value itself or the value less the
fetch offset. -/
theorem decoded_eq {code : CodeBuffer} {w : Word}
    (hword : f.offset + FixupKind.instrBytes ≤ code.size)
    (hfield : f.kind.field.lsb + f.kind.field.width ≤ 8 * FixupKind.instrBytes)
    (hbits : ∀ j < f.kind.field.width,
      code.bit (8 * f.offset + f.kind.field.lsb + j) = w.getLsbD j) :
    f.decoded code = .ok ((w.setWidth f.kind.field.width).toInt + 4) := by
  have hsize : FixupKind.instrBytes = 4 := rfl
  obtain ⟨word, hread, hwordBits⟩ := CodeBuffer.read_of_inside (by decide) hword
  have hshift : word.shiftRight f.kind.field.lsb = .ok (word >>> f.kind.field.lsb) :=
    if_pos (by omega)
  -- what the extraction leaves is `w` in the field, bit by bit
  have hlow : ((word >>> f.kind.field.lsb &&& Word.lowBits f.kind.field.width).setWidth
      f.kind.field.width) = w.setWidth f.kind.field.width := by
    apply BitVec.eq_of_getLsbD_eq
    intro j hj
    rw [BitVec.getLsbD_setWidth, BitVec.getLsbD_setWidth, BitVec.getLsbD_and,
      BitVec.getLsbD_ushiftRight, Word.getLsbD_lowBits, hwordBits, ← Nat.add_assoc, hbits j hj]
    simp [hj, show j < 64 by omega,
      show f.kind.field.lsb + j < 8 * FixupKind.instrBytes by omega]
  have hextract : f.kind.field.extract word =
      .ok (word >>> f.kind.field.lsb &&& Word.lowBits f.kind.field.width) := by
    unfold BitRange.extract
    rw [hshift]
    rfl
  calc f.decoded code
      = .ok (((word >>> f.kind.field.lsb &&& Word.lowBits f.kind.field.width).setWidth
          f.kind.field.width).toInt + 4) := by
        simp only [decoded, hread, bind, Except.bind, hextract]
        rfl
    _ = .ok ((w.setWidth f.kind.field.width).toInt + 4) := by rw [hlow]

/-- The number stored for a relative value, read from its field: the value less the fetch offset,
wrapped into the field. -/
theorem toInt_adjusted (h : f.kind.PcRelative) (v : Int64) :
    ((f.kind.adjusted v).setWidth f.kind.field.width).toInt =
      (v.toInt - 4).bmod (2 ^ f.kind.field.width) := by
  have hwidth : f.kind.field.width ≤ 64 := by
    obtain ⟨_, hle⟩ := h.field_bounds
    have hsize : FixupKind.instrBytes = 4 := rfl
    omega
  rw [Layout.toInt_setWidth hwidth, h.adjusted_eq, BitVec.toInt_sub, Int64.toInt_toBitVec,
    Int.bmod_bmod_of_dvd (Nat.pow_dvd_pow 2 hwidth)]
  rfl

/-- A relative value is reported once if it is no signed number of the field's width, and not at all
otherwise. The fetch offset does not enter here: this is where the check and the stored number
part. -/
theorem complaints_of_pcRelative (h : f.kind.PcRelative) :
    f.complaints =
      if Signed f.kind.field.width f.value.toInt then []
      else [⟨f.loc, f.kind.name, f.value, f.kind.field.width⟩] := by
  obtain ⟨hpos, hle⟩ := h.field_bounds
  have hsize : FixupKind.instrBytes = 4 := rfl
  have hfits := Layout.fitsSigned_iff (l := ⟨f.kind.name, f.kind.field.lsb, f.kind.field.width,
    true, []⟩) (show 0 < f.kind.field.width by omega) (show f.kind.field.width < 64 by omega)
    f.value
  unfold complaints
  rw [h.layout_eq]
  by_cases hsigned : Signed f.kind.field.width f.value.toInt
  · rw [if_pos hsigned]
    simp [hfits.2 hsigned]
  · rw [if_neg hsigned]
    simp [mt hfits.1 hsigned]

/-! ## Patching one fixup

The number decoded is the value less the fetch offset, wrapped into the field, with the fetch offset
added again. It is the value if nothing was wrapped, which is a question about a range four below
the one that is checked. -/

/-- The values at either end of the signed range where the check and the stored number differ. -/
def AtEdge (f : Fixup) : Prop :=
  let bound : Int := 2 ^ (f.kind.field.width - 1)
  (-bound ≤ f.value.toInt ∧ f.value.toInt < -bound + 4) ∨
    (bound ≤ f.value.toInt ∧ f.value.toInt < bound + 4)

/-- A relative value whose field is clear is reported exactly if it is no signed number of the
field's width, and is decoded to itself exactly if the value less the fetch offset is one. So it is
reported exactly if it does not come back, except at the edges. -/
theorem resolve_pcRelative (hkind : f.kind.PcRelative)
    (hword : f.offset + FixupKind.instrBytes ≤ a.code.size)
    (hclear : ∀ p, f.Writes p → a.code.bit p = false) :
    ∃ b d, a.after (resolveAll [f]) = (.ok (), b) ∧ f.decoded b.code = .ok d ∧
      (b.diags = a.diags ++ if Signed f.kind.field.width f.value.toInt then []
        else [⟨f.loc, f.kind.name, f.value, f.kind.field.width⟩]) ∧
      (d = f.value.toInt ↔ Signed f.kind.field.width (f.value.toInt - 4)) ∧
      ((b.diags ≠ a.diags ↔ d ≠ f.value.toInt) ↔ ¬ f.AtEdge) := by
  obtain ⟨hwidth, hfield⟩ := hkind.field_bounds
  have hfits : f.Fits a.code.size := ⟨hkind.valid, by rw [hkind.wordSize_eq]; exact hword⟩
  obtain ⟨b, hresolve, hsize, hdiags, hbits⟩ := after_resolve hfits
  have hpatched : ∀ j < f.kind.field.width,
      b.code.bit (8 * f.offset + f.kind.field.lsb + j) = (f.kind.adjusted f.value).getLsbD j := by
    intro j hj
    have hwrites : f.Writes (8 * f.offset + f.kind.field.lsb + j) :=
      ⟨by omega, (hkind.inField_iff _).2 ⟨by omega, by omega⟩⟩
    rw [Bool.eq_iff_iff, hbits, hclear _ hwrites, Sets, valueBit,
      show 8 * f.offset + f.kind.field.lsb + j - 8 * f.offset - f.kind.field.lsb = j by omega]
    simp [hwrites]
  have hdecoded := decoded_eq (hsize ▸ hword) hfield hpatched
  rw [toInt_adjusted hkind] at hdecoded
  rw [complaints_of_pcRelative hkind] at hdiags
  have hback : (f.value.toInt - 4).bmod (2 ^ f.kind.field.width) + 4 = f.value.toInt ↔
      Signed f.kind.field.width (f.value.toInt - 4) := by
    rw [← Layout.bmod_eq_self_iff (by omega)]
    omega
  refine ⟨b, _, ?_, hdecoded, hdiags, hback, ?_⟩
  · rw [resolveAll, Assembly.after_bind, hresolve]
    rfl
  · have hreported : b.diags ≠ a.diags ↔ ¬ Signed f.kind.field.width f.value.toInt := by
      rw [hdiags]
      split <;> simp [*]
    -- the two ranges overlap, so a value is at one edge at the most
    have hroom : (2 : Int) ^ 3 ≤ 2 ^ (f.kind.field.width - 1) := by
      have hle : 3 ≤ f.kind.field.width - 1 := by omega
      exact_mod_cast Nat.pow_le_pow_right (n := 2) (by decide) hle
    rw [hreported, Ne, not_congr hback]
    unfold Signed AtEdge
    omega

/-- A branch to a place just below its range: it is reported, and does not come back. -/
theorem resolve_pcRelative_branch :
    let a := Assembly.ofCode (.zeroed 4)
    let f : Fixup := ⟨.branch, 0, -524292, .unknown⟩
    ∃ b d, a.after (resolveAll [f]) = (.ok (), b) ∧ f.decoded b.code = .ok d ∧
      b.diags = [⟨f.loc, f.kind.name, f.value, f.kind.field.width⟩] ∧ d ≠ f.value.toInt := by
  intro a f
  obtain ⟨b, d, hresolve, hdecoded, hdiags, hback, _⟩ :=
    resolve_pcRelative (f := f) (a := a) (.inr (.inl rfl)) (by decide)
      (fun p _ => CodeBuffer.bit_zeroed 4 p)
  refine ⟨b, d, hresolve, hdecoded, ?_, ?_⟩
  · rw [hdiags, if_neg (by decide)]
    exact List.nil_append _
  · exact fun h => absurd (hback.1 h) (by decide)

/-- The lowest value of a branch is not reported, and comes back as another one. -/
theorem resolve_lowest_branch :
    let a := Assembly.ofCode (.zeroed 4)
    let f : Fixup := ⟨.branch, 0, -524288, .unknown⟩
    f.kind.PcRelative ∧ f.offset + FixupKind.instrBytes ≤ a.code.size ∧
      (∀ p, f.Writes p → a.code.bit p = false) ∧
      ∃ b d, a.after (resolveAll [f]) = (.ok (), b) ∧ b.diags = [] ∧
        f.decoded b.code = .ok d ∧ d ≠ f.value.toInt :=
  ⟨.inr (.inl rfl), by decide, fun p _ => CodeBuffer.bit_zeroed 4 p, _, _, rfl, rfl, rfl, by decide⟩

end Fixup

end Lowering
