import Lowering.Proofs.FieldPatch
import Lowering.Proofs.SplitFields

/-!
# Lowering — warnings about stale bits

Patching merges, so the bits that a fixup can write should be clear beforehand, and there is a warning
if they are not. What is looked at is the field of the layout, in one piece. For all kinds but one this
is what the kind can write, so the warning is exact. The upper part of a constant is written in two
pieces, and its field is the whole instruction: it is warned about the bits between and behind the
pieces too, though nothing is ever merged with them (`Fixup.apply_warned_opcode`).

* `Layout.CanWrite`, `Fixup.canWrite_iff_exists_sets` — the bits that can be written, by the layout, and
  as those that are set for some value.
* `Fixup.warns_iff_field` — patching warns exactly if the field holds a bit that is set.
* `Fixup.apply_warns` — how this compares with the bits that can be written.
-/

namespace Lowering

namespace Layout

/-- Bit `j` of the word is one that a fixup of the layout can write: it lies in the place of one of the
moves of a scattered immediate, and in the field of any other. -/
def CanWrite (l : Layout) (j : Nat) : Prop :=
  if l.moves = [] then BitRange.Covers ⟨l.offset, l.width⟩ j else ∃ m ∈ l.moves, m.place.Covers j

end Layout

/-- No bit of a word belongs to a mask exactly if nothing is left of it under the mask. -/
theorem Word.and_eq_zero_iff {w m : Word} :
    w &&& m = 0 ↔ ∀ k, ¬(w.getLsbD k = true ∧ m.getLsbD k = true) := by
  constructor
  · intro h k hk
    have hbit : (w &&& m).getLsbD k = true := by
      rw [BitVec.getLsbD_and, hk.1, hk.2]
      rfl
    rw [h, show (0 : Word).getLsbD k = false from BitVec.getLsbD_zero] at hbit
    cases hbit
  · intro h
    apply BitVec.eq_of_getLsbD_eq
    intro k _
    rw [BitVec.getLsbD_and, show (0 : Word).getLsbD k = false from BitVec.getLsbD_zero,
      ← Bool.not_eq_true, Bool.and_eq_true]
    exact h k

namespace FixupKind

variable {k : FixupKind} {l : Layout} {j : Nat}

/-- Only the upper part of a constant is scattered. -/
theorem moves_of_layout (hl : k.layout = .ok l) (hk : k ≠ hi19) : l.moves = [] := by
  -- the generic kinds, and then those of the target one by one
  obtain hraw | rfl | rfl | rfl | rfl | rfl := (valid_of_layout hl).cases
  · obtain ⟨l', hl', _, _, _, hmoves⟩ :=
      exists_layout_generic (decide_eq_false (Nat.not_le.2 hraw))
    cases hl.symm.trans hl'
    exact hmoves
  · cases hl
    rfl
  · cases hl
    rfl
  · cases hl
    rfl
  · exact absurd rfl hk
  · cases hl
    rfl

/-- What the layout of a kind lets it write is what patching is known to write. -/
theorem canWrite_iff (hl : k.layout = .ok l) (j : Nat) : l.CanWrite j ↔ k.InField j := by
  unfold InField Layout.CanWrite
  by_cases hk : k = hi19
  · subst hk
    cases hl
    rw [if_pos rfl, if_neg (List.cons_ne_nil _ _)]
    simp only [FieldMove.place, BitRange.Covers, List.mem_cons, List.not_mem_nil, or_false,
      exists_eq_or_imp, exists_eq_left]
    omega
  · rw [if_neg hk, if_pos (moves_of_layout hl hk)]
    unfold field BitRange.Covers
    rw [hl]

/-- The bits that can be written lie in an instruction. -/
theorem InField.lt (hj : k.InField j) (h : k.Valid) : j < 8 * instrBytes := by
  obtain ⟨l, hl⟩ := h.hasLayout
  have hroom := hl.room
  have hbytes := hl.bytes
  have hsize : instrBytes = 4 := rfl
  unfold InField at hj
  rw [hl.field_eq] at hj
  split at hj
  · omega
  · have hlt : j < l.offset + l.width := hj.2
    omega

/-- A value for which no bit of the field stays clear. -/
def full (k : FixupKind) : Int64 :=
  if k.PcRelative then 3 else -1

/-- Adjusted, the value is a word with every bit set. The relative kinds take four off first. -/
theorem adjusted_full (hk : k ≠ hi19) : k.adjusted k.full = BitVec.allOnes 64 := by
  by_cases hpc : k.PcRelative
  · rw [hpc.adjusted_eq, full, if_pos hpc]
    decide
  · have habsolute : ¬(k = memoryAccess ∨ k = branch ∨ k = labelAddress) := hpc
    rw [full, if_neg hpc, adjusted, if_neg habsolute, if_neg hk]
    decide

/-- So every bit of the field can be set by a fixup of the kind. For the upper part of a constant
the bits of the value are scattered first, and come to all places of the field. -/
theorem getLsbD_adjusted_full (h : k.Valid) (hj : k.InField j) :
    (k.adjusted k.full).getLsbD (j - k.field.lsb) = true := by
  have hlt := hj.lt h
  have hsize : instrBytes = 4 := rfl
  by_cases hk : k = hi19
  · subst hk
    have hfield : hi19.field = ⟨0, 32⟩ := rfl
    -- every bit of the value is set, so it does not matter which of them goes where
    have hfull : hi19.full.toBitVec = BitVec.allOnes 64 := by decide
    unfold InField at hj
    rw [if_pos rfl] at hj
    rw [hfield, Nat.sub_zero, getLsbD_adjusted_hi19, hfull, BitVec.getLsbD_allOnes,
      BitVec.getLsbD_allOnes]
    simp only [Bool.or_eq_true, Bool.and_eq_true, decide_eq_true_eq]
    omega
  · rw [adjusted_full hk, BitVec.getLsbD_allOnes, decide_eq_true_eq]
    omega

theorem lt_of_canWrite (hl : k.layout = .ok l) (hj : l.CanWrite j) : j < 8 * instrBytes :=
  ((canWrite_iff hl j).1 hj).lt (valid_of_layout hl)

/-- The field of any other kind is all that it can write. -/
theorem covers_iff_canWrite (hl : k.layout = .ok l) (hk : k ≠ hi19) (j : Nat) :
    BitRange.Covers ⟨l.offset, l.width⟩ j ↔ l.CanWrite j := by
  rw [Layout.CanWrite, if_pos (moves_of_layout hl hk)]

/-- The field of the upper part of a constant is the whole instruction. -/
theorem covers_hi19 (hl : hi19.layout = .ok l) (j : Nat) :
    BitRange.Covers ⟨l.offset, l.width⟩ j ↔ j < 8 * instrBytes := by
  cases hl
  exact and_iff_right (Nat.zero_le j)

end FixupKind

theorem Assembly.log_write {a b : Assembly} {offset n : Nat} {w : Word}
    (h : a.after (Patching.write offset n w) = (.ok (), b)) : b.log = a.log := by
  rw [after_write] at h
  split at h
  · cases h
    rfl
  · cases h

namespace Fixup

variable {f : Fixup} {l : Layout} {a b : Assembly} {v : Int64}

/-- The bits that can be written are those that are set for some value. -/
theorem canWrite_iff_exists_sets (hl : f.kind.layout = .ok l) (j : Nat) :
    l.CanWrite j ↔ ∃ u : Int64, { f with value := u }.Sets (8 * f.offset + j) := by
  have hkind := FixupKind.valid_of_layout hl
  rw [FixupKind.canWrite_iff hl]
  unfold Sets Writes valueBit
  simp only [Nat.add_sub_cancel_left, Nat.le_add_right, true_and]
  constructor
  · intro hj
    exact ⟨f.kind.full, hj, FixupKind.getLsbD_adjusted_full hkind hj⟩
  · rintro ⟨u, hj, _⟩
    exact hj

/-- A fixup that was applied fits, since nothing else is patched. -/
theorem fits_of_after_apply (h : a.after (f.apply v) = (.ok (), b)) : f.Fits a.code.size := by
  by_contra hfits
  rw [after_apply_of_not_fits hfits] at h
  cases h

/-- A fixup that fits can be applied with any value. -/
theorem Fits.exists_after_apply (h : f.Fits a.code.size) (v : Int64) :
    ∃ b, a.after (f.apply v) = (.ok (), b) := by
  obtain ⟨l, hl⟩ := h.kind.hasLayout
  obtain ⟨b, hb, _⟩ := after_apply hl (hl.wordSize_eq ▸ h.word) v
  exact ⟨b, hb⟩

/-- What is logged is told by the bits of the word under the mask of the field. The mask is the one
that the layout has, not the places that the kind writes to, and this is all that the exception of
`apply_warns` comes from. -/
theorem log_after_apply (hl : f.kind.HasLayout l) (h : a.after (f.apply v) = (.ok (), b)) :
    ∃ w m, a.code.read f.offset (f.kind.numBytes l) = .ok w ∧ l.mask = .ok m ∧
      b.log = a.log ++ if w &&& m = 0 then []
        else [.staleField l.name f.offset ((w &&& m) >>> l.offset)] := by
  obtain ⟨m, hmask, _⟩ := hl.mask_eq
  unfold apply at h
  simp only [Assembly.after_bind, Assembly.after_liftExcept, hl.layout, hl.stored, hmask,
    Assembly.after_read] at h
  cases hread : a.code.read f.offset (f.kind.numBytes l) with
  | error e =>
    rw [hread] at h
    cases h
  | ok w =>
    refine ⟨w, m, rfl, hmask, ?_⟩
    rw [hread] at h
    simp only at h
    -- the warning is logged before the word is written, and writing logs nothing
    by_cases hclear : w &&& m = 0
    · rw [if_neg (not_not.2 hclear)] at h
      rw [if_pos hclear, List.append_nil]
      exact Assembly.log_write h
    · rw [if_pos hclear, Assembly.after_bind, Assembly.after_emit] at h
      rw [if_neg hclear]
      exact Assembly.log_write h

/-- There is one warning if the field of the layout holds a bit that is set, and none otherwise. -/
theorem warns_iff_field (hl : f.kind.HasLayout l) (h : a.after (f.apply v) = (.ok (), b)) :
    ∃ events, b.log = a.log ++ events ∧
      (events = [] ∨ ∃ bits, events = [.staleField l.name f.offset bits]) ∧
      ((∃ e ∈ events, e.level = .warn) ↔
        ∃ j, BitRange.Covers ⟨l.offset, l.width⟩ j ∧ a.code.bit (8 * f.offset + j) = true) := by
  have hword := (fits_of_after_apply h).word
  have hbytes := hl.bytes
  have hroom := hl.room
  rw [hl.wordSize_eq] at hword
  obtain ⟨w, m, hread, hmask, hlog⟩ := log_after_apply hl h
  obtain ⟨w', hread', hw⟩ := CodeBuffer.read_of_inside (b := a.code) (n := f.kind.numBytes l)
    (by omega) hword
  obtain ⟨m', hmask', hm⟩ := hl.mask_eq
  cases hread.symm.trans hread'
  cases hmask.symm.trans hmask'
  -- the bits of the word under the mask are the bits of the code in the field
  have hbit (j : Nat) : (w.getLsbD j = true ∧ m.getLsbD j = true) ↔
      BitRange.Covers ⟨l.offset, l.width⟩ j ∧ a.code.bit (8 * f.offset + j) = true := by
    rw [hw, hm, Bool.and_eq_true, decide_eq_true_eq, decide_eq_true_eq]
    constructor
    · rintro ⟨⟨_, hset⟩, hj⟩
      exact ⟨hj, hset⟩
    · rintro ⟨hj, hset⟩
      obtain ⟨hlow, hhigh⟩ : l.offset ≤ j ∧ j < l.offset + l.width := hj
      exact ⟨⟨by omega, hset⟩, hlow, hhigh⟩
  refine ⟨_, hlog, ?_, ?_⟩
  · split
    · exact .inl rfl
    · exact .inr ⟨_, rfl⟩
  · by_cases hclear : w &&& m = 0
    · rw [if_pos hclear]
      simp only [Word.and_eq_zero_iff, hbit] at hclear
      refine iff_of_false ?_ fun hset => ?_
      · rintro ⟨e, he, _⟩
        cases he
      · obtain ⟨j, hj⟩ := hset
        exact hclear j hj
    · rw [if_neg hclear]
      refine iff_of_true ⟨_, List.mem_singleton_self _, rfl⟩ ?_
      simp only [Word.and_eq_zero_iff, hbit, not_forall, not_not] at hclear
      exact hclear

/-- Patching that completes logs a warning exactly if a bit was set that the fixup can write, which is
a bit that it sets for some value. The exception is the upper part of a constant: its field is the
whole instruction, so it also warns about the bits that it cannot write. -/
theorem apply_warns (h : a.after (f.apply v) = (.ok (), b)) :
    ∃ l events, f.kind.layout = .ok l ∧ b.log = a.log ++ events ∧
      (events = [] ∨ ∃ bits, events = [.staleField l.name f.offset bits]) ∧
      (∀ j, l.CanWrite j ↔ ∃ u : Int64, { f with value := u }.Sets (8 * f.offset + j)) ∧
      ((∃ e ∈ events, e.level = .warn) ↔
        (∃ j, l.CanWrite j ∧ a.code.bit (8 * f.offset + j) = true) ∨
          (f.kind = .hi19 ∧
            ∃ j < 8 * FixupKind.instrBytes, a.code.bit (8 * f.offset + j) = true)) := by
  obtain ⟨l, hl⟩ := (fits_of_after_apply h).kind.hasLayout
  obtain ⟨events, hlog, hone, hwarns⟩ := warns_iff_field hl h
  refine ⟨l, events, hl.layout, hlog, hone, canWrite_iff_exists_sets hl.layout, hwarns.trans ?_⟩
  -- for the exception the mask covers the whole word, for all others just what can be written
  by_cases hk : f.kind = .hi19
  · have hcovers := FixupKind.covers_hi19 (hk ▸ hl.layout)
    simp only [hk, true_and, hcovers]
    refine ⟨.inr, fun hset => ?_⟩
    obtain ⟨j, hj, hset⟩ | hset := hset
    · exact ⟨j, FixupKind.lt_of_canWrite hl.layout hj, hset⟩
    · exact hset
  · simp only [hk, false_and, or_false, FixupKind.covers_iff_canWrite hl.layout hk]

/-- Bits on either side of the field are no reason to warn. -/
theorem apply_warns_surrounded :
    let a := Assembly.ofCode ⟨[0xff, 0x03, 0x00, 0xfe]⟩
    let f : Fixup := ⟨.memoryAccess, 0, -4, .unknown⟩
    ∃ b, a.after (f.apply f.value) = (.ok (), b) ∧ ∀ e ∈ b.log, e.level ≠ .warn := by
  intro a f
  have hfits : f.Fits a.code.size := by decide
  obtain ⟨b, h⟩ := hfits.exists_after_apply f.value
  obtain ⟨l, events, hl, hlog, _, _, hwarns⟩ := apply_warns h
  have hclear : ∀ j < 25, 10 ≤ j → a.code.bit (8 * f.offset + j) = false := by decide
  have hlog : b.log = events := hlog
  refine ⟨b, h, ?_⟩
  intro e he hwarn
  rw [hlog] at he
  obtain ⟨j, hj, hset⟩ | ⟨hk, _⟩ := hwarns.1 ⟨e, he, hwarn⟩
  · have hkind : f.kind.PcRelative := .inl rfl
    have hfield : f.kind.field = ⟨10, 15⟩ :=
      (rfl : FixupKind.memoryAccess.field = ⟨10, 15⟩)
    rw [FixupKind.canWrite_iff hl, hkind.inField_iff, hfield] at hj
    rw [hclear j hj.2 hj.1] at hset
    cases hset
  · cases hk

/-- The exception: only bits of the opcode are set in the instruction, none of them can be written, and
all the same there is a warning. -/
theorem apply_warned_opcode :
    let a := Assembly.ofCode ⟨[0x00, 0x00, 0x00, 0xf0]⟩
    let f : Fixup := ⟨.hi19, 0, 0x12345678, .unknown⟩
    ∃ l b, f.kind.layout = .ok l ∧ (∀ j, l.CanWrite j → a.code.bit (8 * f.offset + j) = false) ∧
      a.after (f.apply f.value) = (.ok (), b) ∧ ∃ e ∈ b.log, e.level = .warn := by
  intro a f
  have hfits : f.Fits a.code.size := by decide
  obtain ⟨l, hl⟩ := hfits.kind.hasLayout
  obtain ⟨b, h⟩ := hfits.exists_after_apply f.value
  refine ⟨l, b, hl.layout, ?_, h, ?_⟩
  · have hclear : ∀ j < 24, a.code.bit (8 * f.offset + j) = false := by decide
    intro j hj
    have hin : j < 5 ∨ (10 ≤ j ∧ j < 24) := (FixupKind.canWrite_iff hl.layout j).1 hj
    exact hclear j (by omega)
  · obtain ⟨events, hlog, _, hwarns⟩ := warns_iff_field hl h
    have hcovers : BitRange.Covers ⟨l.offset, l.width⟩ 28 :=
      (FixupKind.covers_hi19 hl.layout 28).2 (by decide)
    have hwarns : ∃ e ∈ events, e.level = .warn := hwarns.2 ⟨28, hcovers, by decide⟩
    rwa [hlog]

end Fixup

end Lowering
