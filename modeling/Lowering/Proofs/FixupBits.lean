import Lowering.Code.Patch
import Lowering.Proofs.CodeBits

/-!
# Lowering — the bits that a fixup sets

A fixup has a value for the bits of a field in its word, and patching it sets the bits of the field
that are set in the value. `Fixup.Sets` says which bits of the code these are, from the kind, the
offset and the value alone; what the code holds does not come in.

* `FixupKind.adjusted`, `FixupKind.InField` — the value and the field of a kind.
* `Fixup.after_resolve` — one fixup is patched whatever its value is, and a bit is set afterwards if
  it was set before or the fixup sets it. What is reported of it is told by `Fixup.complaints`.
-/

namespace Lowering

/-! ## Kinds

What is needed of a kind is where its field lies and what is stored in it. Both can be told for
every kind in a line, though the layouts say it in three ways: in one piece, relative to the program
counter, and by moves (`FixupKind.Valid.hasLayout`). -/

namespace FixupKind

/-- The numbers that stand for a kind: all below the target's own, and five of these. -/
def Valid (k : FixupKind) : Prop :=
  k.raw < firstTarget + 5

instance (k : FixupKind) : Decidable k.Valid :=
  inferInstanceAs (Decidable (k.raw < firstTarget + 5))

/-- The run of bits that the layout of the kind gives to the field. -/
def field (k : FixupKind) : BitRange :=
  match k.layout with
  | .ok l => ⟨l.offset, l.width⟩
  | .error _ => ⟨0, 0⟩

/-- The number of bytes in the word that holds the field. -/
def wordSize (k : FixupKind) : Nat :=
  match k.layout with
  | .ok l => k.numBytes l
  | .error _ => 0

/-- The bits of the word that a fixup of the kind can write. The upper part of a constant lies in
two pieces, any other field in one. -/
def InField (k : FixupKind) (j : Nat) : Prop :=
  if k = hi19 then j < 5 ∨ (10 ≤ j ∧ j < 24)
  else k.field.lsb ≤ j ∧ j < k.field.lsb + k.field.width

instance (k : FixupKind) (j : Nat) : Decidable (k.InField j) :=
  inferInstanceAs (Decidable (if k = hi19 then _ else _))

/-- What is stored for a value, from the lowest bit of the field on. -/
def adjusted (k : FixupKind) (v : Int64) : Word :=
  if k = memoryAccess ∨ k = branch ∨ k = labelAddress then v.toBitVec - 4
  else if k = hi19 then
    ((v.toBitVec >>> 13) &&& (0x1f : Word)) ||| (((v.toBitVec >>> 18) &&& (0x3fff : Word)) <<< 10)
  else v.toBitVec

/-- The layout of the kind, with what patching relies on: the value can be stored, and the field
lies in the word and holds every bit of the value that can be set. -/
structure HasLayout (k : FixupKind) (l : Layout) : Prop where
  layout : k.layout = .ok l
  stored : ∀ v, l.stored v = .ok (Int64.ofBitVec (k.adjusted v))
  room : l.offset + l.width ≤ 8 * k.numBytes l
  bytes : k.numBytes l ≤ 4
  inField : ∀ v j, (k.adjusted v).getLsbD (j - l.offset) = true →
    (k.InField j ↔ l.offset ≤ j ∧ j < l.offset + l.width)

variable {k : FixupKind} {l : Layout}

theorem HasLayout.field_eq (h : k.HasLayout l) : k.field = ⟨l.offset, l.width⟩ := by
  unfold field
  rw [h.layout]

theorem HasLayout.wordSize_eq (h : k.HasLayout l) : k.wordSize = k.numBytes l := by
  unfold wordSize
  rw [h.layout]

/-- A field in one piece is all that its layout covers. -/
theorem HasLayout.inOnePiece (hk : k ≠ hi19) (hl : k.layout = .ok l)
    (hstored : ∀ v, l.stored v = .ok (Int64.ofBitVec (k.adjusted v)))
    (hroom : l.offset + l.width ≤ 8 * k.numBytes l) (hbytes : k.numBytes l ≤ 4) :
    k.HasLayout l := by
  refine ⟨hl, hstored, hroom, hbytes, fun v j _ => ?_⟩
  unfold InField field
  rw [if_neg hk, hl]

/-- The upper part of a constant: five bits from bit 13 on, and fourteen from bit 18 on. They go to
bits 0 and 10 of the instruction, and all other bits of what is stored are zero. -/
theorem getLsbD_adjusted_hi19 (v : Int64) (j : Nat) :
    (hi19.adjusted v).getLsbD j =
      ((decide (j < 5) && v.toBitVec.getLsbD (13 + j)) ||
        (decide (10 ≤ j ∧ j < 24) && v.toBitVec.getLsbD (8 + j))) := by
  -- both masks keep low bits, and the pieces do not overlap
  have hlow : (0x1f : Word) = Word.lowBits 5 := by decide
  have hhigh : (0x3fff : Word) = Word.lowBits 14 := by decide
  unfold adjusted
  rw [if_neg (by decide), if_pos rfl, hlow, hhigh]
  simp only [BitVec.getLsbD_or, BitVec.getLsbD_and, BitVec.getLsbD_shiftLeft,
    BitVec.getLsbD_ushiftRight, Word.getLsbD_lowBits]
  by_cases hj : 10 ≤ j ∧ j < 24
  · simp only [show ¬ j < 5 by omega, show j < 64 by omega, show ¬ j < 10 by omega, hj,
      show j - 10 < 14 by omega, show j - 10 < 64 by omega, show 18 + (j - 10) = 8 + j by omega]
    simp
  · simp only [hj]
    by_cases hlt : j < 5
    · simp [hlt, show j < 64 by omega, show j < 10 by omega]
    · by_cases hten : j < 10
      · simp [hlt, hten]
      · simp [hlt, hten, show ¬ j - 10 < 14 by omega]

/-- The upper part of a constant is stored by the moves of its layout, which come to the two pieces
that `adjusted` puts together. -/
theorem stored_hi19 {l : Layout} (hl : hi19.layout = .ok l) (v : Int64) :
    l.stored v = .ok (Int64.ofBitVec (hi19.adjusted v)) := by
  cases hl
  -- what the two moves come to on any word
  have hrepack : Layout.repack ⟨"fixup_Nyuzi_HI19", 0, 32, false, [⟨⟨13, 5⟩, 0⟩, ⟨⟨18, 14⟩, 10⟩]⟩
      v.toBitVec = .ok ((0 : Word) ||| (v.toBitVec >>> 13 &&& Word.lowBits 5) <<< 0 |||
        (v.toBitVec >>> 18 &&& Word.lowBits 14) <<< 10) := rfl
  have hword : ((0 : Word) ||| (v.toBitVec >>> 13 &&& Word.lowBits 5) <<< 0 |||
      (v.toBitVec >>> 18 &&& Word.lowBits 14) <<< 10) = hi19.adjusted v := by
    rw [BitVec.shiftLeft_zero, show (0 : Word) = 0#64 from rfl, BitVec.zero_or]
    rfl
  rw [hword] at hrepack
  unfold Layout.stored
  simp only [hrepack]
  rfl

/-- The layout of a generic kind: at most four bytes from the start of the word. -/
theorem exists_layout_generic (h : k.isTarget = false) :
    ∃ l, k.layout = .ok l ∧ l.offset = 0 ∧ l.width ≤ 32 ∧ l.pcRelative = false ∧ l.moves = [] := by
  unfold layout genericLayout
  rw [h]
  simp only [Bool.false_eq_true, if_false]
  refine ⟨_, rfl, ?_⟩
  split
  · exact ⟨rfl, by decide, rfl, rfl⟩
  · split
    · exact ⟨rfl, by decide, rfl, rfl⟩
    · split <;> exact ⟨rfl, by decide, rfl, rfl⟩

/-- A generic kind takes whole bytes from the start of its word, and stores its value as it is. -/
theorem hasLayout_generic (h : k.raw < firstTarget) : ∃ l, k.HasLayout l := by
  have htarget : k.isTarget = false := decide_eq_false (Nat.not_le.2 h)
  -- the kinds that are treated in a way of their own have higher numbers
  have hne {m : FixupKind} (hm : firstTarget ≤ m.raw) : k ≠ m := by
    rintro rfl
    omega
  have hadjusted : ∀ v, k.adjusted v = v.toBitVec := by
    intro v
    unfold adjusted
    rw [if_neg, if_neg (hne (by decide))]
    rintro (hk | hk | hk)
    · exact hne (by decide) hk
    · exact hne (by decide) hk
    · exact hne (by decide) hk
  obtain ⟨l, hl, hoffset, hwidth, hpc, hmoves⟩ := exists_layout_generic htarget
  have hbytes : k.numBytes l = (l.width + 7) / 8 := by
    unfold numBytes
    rw [htarget, hoffset, Nat.zero_add]
    rfl
  refine ⟨l, .inOnePiece (hne (by decide)) hl ?_ ?_ ?_⟩
  · intro v
    unfold Layout.stored
    rw [hpc, hmoves, hadjusted]
    rfl
  · omega
  · omega

/-- A number stands for a generic kind or for one of the target's own. -/
theorem Valid.cases (h : k.Valid) : k.raw < firstTarget ∨ k = memoryAccess ∨ k = branch ∨
    k = labelAddress ∨ k = hi19 ∨ k = immLo13 := by
  obtain ⟨raw⟩ := k
  simp only [Valid, firstTarget, memoryAccess, branch, labelAddress, hi19, immLo13,
    FixupKind.mk.injEq] at h ⊢
  omega

/-- Every kind has a layout that patching can rely on. The generic kinds are alike, and of the
others each is looked at by itself; for all but the upper part of a constant the field is in one
piece. -/
theorem Valid.hasLayout (h : k.Valid) : ∃ l, k.HasLayout l := by
  obtain hraw | rfl | rfl | rfl | rfl | rfl := h.cases
  · exact hasLayout_generic hraw
  · exact ⟨_, .inOnePiece (by decide) rfl (fun v => rfl) (by decide) (by decide)⟩
  · exact ⟨_, .inOnePiece (by decide) rfl (fun v => rfl) (by decide) (by decide)⟩
  · exact ⟨_, .inOnePiece (by decide) rfl (fun v => rfl) (by decide) (by decide)⟩
  · refine ⟨_, rfl, stored_hi19 rfl, by decide, by decide, fun v j hset => ?_⟩
    -- what is set of a repacked value lies in one of the two pieces
    change (hi19.adjusted v).getLsbD (j - 0) = true at hset
    change InField hi19 j ↔ 0 ≤ j ∧ j < 0 + 32
    unfold InField
    rw [Nat.sub_zero, getLsbD_adjusted_hi19] at hset
    rw [if_pos rfl]
    simp only [Bool.or_eq_true, Bool.and_eq_true, decide_eq_true_eq] at hset
    omega
  · exact ⟨_, .inOnePiece (by decide) rfl (fun v => rfl) (by decide) (by decide)⟩

/-- The mask of a field is set at the bits of the field. The word that is stored is cut to it and
the word that is patched is tested with it, so this is where either becomes a statement about
bits. -/
theorem HasLayout.mask_eq (h : k.HasLayout l) :
    ∃ m, l.mask = .ok m ∧
      ∀ j, m.getLsbD j = decide (l.offset ≤ j ∧ j < l.offset + l.width) := by
  have hroom := h.room
  have hbytes := h.bytes
  -- the field lies in a word of at most eight bytes
  have hoffset : l.offset < 64 := by omega
  obtain ⟨m, hm, hbits⟩ := BitRange.mask_of_lt (r := ⟨l.offset, l.width⟩) hoffset
  refine ⟨m, hm, ?_⟩
  intro j
  rw [hbits]
  refine decide_eq_decide.2 ?_
  change (l.offset ≤ j ∧ j < l.offset + l.width) ∧ j < 64 ↔ _
  omega

end FixupKind

/-! ## Fixups

A fixup sets bits of the code. They are found in three steps: the word is read, the bits of the
value that lie in the field are put to it, and it is written back. -/

namespace Fixup

/-- Bit `p` of the code is one that the fixup can write. -/
def Writes (f : Fixup) (p : Nat) : Prop :=
  8 * f.offset ≤ p ∧ f.kind.InField (p - 8 * f.offset)

/-- The bit of the value that belongs to bit `p` of the code. -/
def valueBit (f : Fixup) (p : Nat) : Bool :=
  (f.kind.adjusted f.value).getLsbD (p - 8 * f.offset - f.kind.field.lsb)

/-- Patching the fixup sets bit `p` of the code: it can write the bit, and its value has it. -/
def Sets (f : Fixup) (p : Nat) : Prop :=
  f.Writes p ∧ f.valueBit p = true

instance (f : Fixup) (p : Nat) : Decidable (f.Writes p) :=
  inferInstanceAs (Decidable (_ ∧ f.kind.InField _))

instance (f : Fixup) (p : Nat) : Decidable (f.Sets p) :=
  inferInstanceAs (Decidable (f.Writes p ∧ _))

/-- The fixup is of some kind, and its word lies in code of the given size. -/
structure Fits (f : Fixup) (size : Nat) : Prop where
  kind : f.kind.Valid
  word : f.offset + f.kind.wordSize ≤ size

/-- What is reported when the fixup is checked. -/
def complaints (f : Fixup) : List Diagnostic :=
  match f.kind.layout with
  | .ok l =>
    if l.pcRelative && !l.fitsSigned f.value then [⟨f.loc, l.name, f.value, l.width⟩] else []
  | .error _ => []

variable {f : Fixup} {l : Layout} {a : Assembly}

/-- A fixup is checked without a change to the code. Whether it is reported is asked with a sink, so
this is the only place where a diagnostic comes from. -/
theorem after_process (hl : f.kind.HasLayout l) :
    ∃ b, a.after f.process = (.ok (), b) ∧ b.code = a.code ∧
      b.diags = a.diags ++ f.complaints := by
  unfold process adjust complaints
  simp only [Assembly.after_bind, Assembly.after_liftExcept, hl.layout, Bool.and_true]
  by_cases hout : (l.pcRelative && !l.fitsSigned f.value) = true
  · rw [if_pos hout, if_pos hout]
    exact ⟨_, rfl, rfl, rfl⟩
  · rw [if_neg hout, if_neg hout, Assembly.after_liftExcept, hl.stored]
    exact ⟨_, rfl, rfl, (List.append_nil _).symm⟩

/-- The bits that a fixup sets, by its layout. A field in two pieces is covered by one run of bits
in the layout, but no bit of the stored value lies between the pieces. -/
theorem sets_iff (hl : f.kind.HasLayout l) (v : Int64) (p : Nat) :
    { f with value := v }.Sets p ↔
      8 * f.offset + l.offset ≤ p ∧ p < 8 * f.offset + l.offset + l.width ∧
        (f.kind.adjusted v).getLsbD (p - 8 * f.offset - l.offset) = true := by
  unfold Sets Writes valueBit
  simp only [hl.field_eq]
  constructor
  · rintro ⟨⟨hp, hin⟩, hset⟩
    have hfield := (hl.inField v _ hset).1 hin
    exact ⟨by omega, by omega, hset⟩
  · rintro ⟨hp, hlt, hset⟩
    exact ⟨⟨by omega, (hl.inField v _ hset).2 ⟨by omega, by omega⟩⟩, hset⟩

/-- A value is patched into a word that lies in the code: it completes, nothing is reported, and the
bits that are set afterwards are those that were and those of the value. The value need not be the
one of the fixup. -/
theorem after_apply (hl : f.kind.HasLayout l) (hword : f.offset + f.kind.numBytes l ≤ a.code.size)
    (v : Int64) :
    ∃ b, a.after (f.apply v) = (.ok (), b) ∧ b.code.size = a.code.size ∧ b.diags = a.diags ∧
      ∀ p, b.code.bit p = true ↔ a.code.bit p = true ∨ { f with value := v }.Sets p := by
  have hbytes := hl.bytes
  obtain ⟨m, hmask, hm⟩ := hl.mask_eq
  obtain ⟨w, hread, hw⟩ := CodeBuffer.read_of_inside (b := a.code) (n := f.kind.numBytes l)
    (by omega) hword
  -- the word is written back with the bits of the value merged into the field
  obtain ⟨c, hwrite, hsize, hc⟩ := CodeBuffer.write_of_inside
    (w ||| (Int64.ofBitVec (f.kind.adjusted v)).toBitVec <<< l.offset &&& m)
    (show f.kind.numBytes l ≤ 8 by omega) hword
  have hbits : ∀ p, c.bit p = true ↔ a.code.bit p = true ∨ { f with value := v }.Sets p := by
    intro p
    have hroom := hl.room
    rw [sets_iff hl, hc]
    -- outside the word the fixup sets nothing, inside it the masked value decides
    by_cases hp : 8 * f.offset ≤ p ∧ p < 8 * (f.offset + f.kind.numBytes l)
    · rw [if_pos hp, BitVec.getLsbD_or, BitVec.getLsbD_and, BitVec.getLsbD_shiftLeft, hw, hm,
        show 8 * f.offset + (p - 8 * f.offset) = p by omega]
      simp only [Bool.or_eq_true, Bool.and_eq_true, decide_eq_true_eq, Bool.not_eq_true',
        decide_eq_false_iff_not, Int64.toBitVec_ofBitVec]
      refine or_congr ⟨And.right, fun h => ⟨by omega, h⟩⟩ ⟨?_, ?_⟩
      · rintro ⟨⟨_, hset⟩, hfield⟩
        exact ⟨by omega, by omega, hset⟩
      · rintro ⟨hlow, hhigh, hset⟩
        exact ⟨⟨⟨by omega, by omega⟩, hset⟩, by omega, by omega⟩
    · rw [if_neg hp]
      exact ⟨.inl, fun h => h.resolve_right fun hset => hp (by omega)⟩
  -- whether the field was clear makes a difference to the log alone
  have hstep : ∃ log, a.after (f.apply v) = (.ok (), ⟨c, a.diags, log⟩) := by
    unfold apply
    simp only [Assembly.after_bind, Assembly.after_liftExcept, hl.layout, hl.stored, hmask,
      Assembly.after_read, hread]
    split
    · simp only [Assembly.after_bind, Assembly.after_emit, Assembly.after_write, hwrite]
      exact ⟨_, rfl⟩
    · simp only [Assembly.after_write, hwrite]
      exact ⟨_, rfl⟩
  obtain ⟨log, hstep⟩ := hstep
  exact ⟨_, hstep, hsize, rfl, hbits⟩

/-- A fixup of a batch is patched whatever its value is. A value that does not fit the field is
reported, and its low bits are stored all the same, on top of the bits that were set before. -/
theorem after_resolve (hfits : f.Fits a.code.size) :
    ∃ b, a.after f.resolve = (.ok (), b) ∧ b.code.size = a.code.size ∧
      b.diags = a.diags ++ f.complaints ∧
      ∀ p, b.code.bit p = true ↔ a.code.bit p = true ∨ f.Sets p := by
  obtain ⟨l, hl⟩ := hfits.kind.hasLayout
  have hword := hfits.word
  rw [hl.wordSize_eq] at hword
  obtain ⟨b, hprocess, hcode, hdiags⟩ := after_process (a := a) hl
  -- the code is as it was when the patching starts, only the log has grown
  have hword' : f.offset + f.kind.numBytes l ≤
      { b with log := b.log ++ [PatchEvent.applying l.name f.offset f.value] }.code.size :=
    hcode ▸ hword
  obtain ⟨c, happly, hsize, hkept, hbits⟩ := after_apply hl hword' f.value
  refine ⟨c, ?_, hcode ▸ hsize, hkept.trans hdiags, hcode ▸ hbits⟩
  unfold resolve
  simp only [Assembly.after_bind, hprocess, Assembly.after_liftExcept, hl.layout,
    Assembly.after_emit, happly]

end Fixup

end Lowering
