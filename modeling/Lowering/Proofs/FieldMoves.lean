import Lowering.Fixup.BitRange
import Mathlib.Data.List.Basic

/-!
# Lowering — what field moves do bit by bit

A move puts the bits of its source from `toLsb` on, and drops those that leave the word
(`FieldMove.Sets`). Moves whose sources and places start inside the word succeed, one after the
other and merged, and a bit of the result is set if one of the moves sets it
(`FieldMove.applyAll_of_inside`). One move that starts outside makes all of them fail
(`FieldMove.exists_error_applyAll_iff`).
-/

namespace Lowering.FieldMove

/-- Source and place of the move start inside the word. -/
def Inside (m : FieldMove) : Prop :=
  m.source.lsb < 64 ∧ m.toLsb < 64

/-- The move sets bit `k`: the bit belongs to the place, and is set in the source. -/
def Sets (m : FieldMove) (w : Word) (k : Nat) : Prop :=
  m.toLsb ≤ k ∧ k < m.toLsb + m.source.width ∧ k < 64 ∧
    w.getLsbD (m.source.lsb + (k - m.toLsb)) = true

variable {m : FieldMove} {moves : List FieldMove}

/-- A move that starts inside the word succeeds, and sets the bits that `Sets` says. The bits
shifted out at the top are lost, which is what the bound on `k` says. -/
theorem apply_of_inside (h : m.Inside) (w : Word) :
    ∃ x, m.apply w = .ok x ∧ ∀ k, x.getLsbD k = true ↔ m.Sets w k := by
  -- neither of the two shifts is by as much as a word
  have hright : w.shiftRight m.source.lsb = .ok (w >>> m.source.lsb) := if_pos h.1
  have hleft (x : Word) : x.shiftLeft m.toLsb = .ok (x <<< m.toLsb) := if_pos h.2
  refine ⟨(w >>> m.source.lsb &&& Word.lowBits m.source.width) <<< m.toLsb, ?_, ?_⟩
  · unfold apply BitRange.extract
    rw [hright]
    exact hleft _
  · intro k
    unfold Sets
    rw [BitVec.getLsbD_shiftLeft, BitVec.getLsbD_and, BitVec.getLsbD_ushiftRight,
      Word.getLsbD_lowBits]
    simp only [Bool.and_eq_true, decide_eq_true_eq, Bool.not_eq_true', decide_eq_false_iff_not]
    constructor
    · intro hbit
      obtain ⟨⟨hk, hto⟩, hset, hwidth, _⟩ := hbit
      exact ⟨by omega, by omega, hk, hset⟩
    · intro hsets
      obtain ⟨hto, hwidth, hk, hset⟩ := hsets
      exact ⟨⟨hk, by omega⟩, hset, by omega, by omega⟩

/-- A move that starts outside fails: at its source if this does not start in the word, else at its
place. -/
theorem exists_error_apply (h : ¬m.Inside) (w : Word) : ∃ e, m.apply w = .error e := by
  unfold apply BitRange.extract
  by_cases hsource : m.source.lsb < 64
  · have hplace : ¬m.toLsb < 64 := fun hplace => h ⟨hsource, hplace⟩
    rw [show w.shiftRight m.source.lsb = .ok (w >>> m.source.lsb) from if_pos hsource]
    exact ⟨.shiftLeftOverflow, if_neg hplace⟩
  · rw [show w.shiftRight m.source.lsb = .error .shiftRightOverflow from if_neg hsource]
    exact ⟨.shiftRightOverflow, rfl⟩

/-! ## Words merged into one

The merge of some words, each of which may fail to be made. This is said of any way to make them, as
moves are not the only one. -/

section Merge

variable {α : Type} {f : α → Except PatchFault Word} {as : List α}

/-- Words are merged one by one, into whatever those before them have set. Induction on the words; a
bit is set in the end if it was set at the start or by one of them. -/
theorem foldlM_merge {Bit : α → Nat → Prop}
    (h : ∀ a ∈ as, ∃ y, f a = .ok y ∧ ∀ k, y.getLsbD k = true ↔ Bit a k) (merged : Word) :
    ∃ x, as.foldlM (fun merged a => do return merged ||| (← f a)) merged = .ok x ∧
      ∀ k, x.getLsbD k = true ↔ merged.getLsbD k = true ∨ ∃ a ∈ as, Bit a k := by
  induction as generalizing merged with
  | nil => exact ⟨merged, rfl, by simp⟩
  | cons a as ih =>
    obtain ⟨y, hy, hbits⟩ := h a List.mem_cons_self
    -- the rest is merged into what there is after the first word
    obtain ⟨x, hx, hbits'⟩ := ih (fun b hb => h b (List.mem_cons_of_mem a hb)) (merged ||| y)
    refine ⟨x, ?_, ?_⟩
    · rw [List.foldlM_cons, hy]
      exact hx
    · intro k
      rw [hbits', BitVec.getLsbD_or, Bool.or_eq_true, hbits, or_assoc, List.exists_mem_cons_iff]

theorem foldlM_merge_zero {Bit : α → Nat → Prop}
    (h : ∀ a ∈ as, ∃ y, f a = .ok y ∧ ∀ k, y.getLsbD k = true ↔ Bit a k) :
    ∃ x, as.foldlM (fun merged a => do return merged ||| (← f a)) 0 = .ok x ∧
      ∀ k, x.getLsbD k = true ↔ ∃ a ∈ as, Bit a k := by
  obtain ⟨x, hx, hbits⟩ := foldlM_merge h 0
  refine ⟨x, hx, ?_⟩
  intro k
  rw [hbits, show (0 : Word).getLsbD k = false from BitVec.getLsbD_zero]
  simp

/-- One word that cannot be made is enough for the merge to fail. -/
theorem exists_error_foldlM_merge {a : α} (ha : a ∈ as) (hfails : ∃ e, f a = .error e)
    (merged : Word) :
    ∃ e, as.foldlM (fun merged a => do return merged ||| (← f a)) merged = .error e := by
  induction as generalizing merged with
  | nil => exact absurd ha List.not_mem_nil
  | cons b as ih =>
    rw [List.foldlM_cons]
    -- the first word that cannot be made stops the merge, be it this one or an earlier one
    cases hb : f b with
    | error e => exact ⟨e, rfl⟩
    | ok y =>
      obtain rfl | hmem := List.mem_cons.1 ha
      · obtain ⟨e, he⟩ := hfails
        rw [hb] at he
        cases he
      · exact ih hmem (merged ||| y)

end Merge

/-- Moves that all start inside the word succeed together, and the result has the bits that one of
them sets. Their places may overlap. -/
theorem applyAll_of_inside (h : ∀ m ∈ moves, m.Inside) (w : Word) :
    ∃ x, applyAll moves w = .ok x ∧ ∀ k, x.getLsbD k = true ↔ ∃ m ∈ moves, m.Sets w k :=
  foldlM_merge_zero fun m hm => apply_of_inside (h m hm) w

/-- Some moves fail exactly if one of them starts outside the word. It need not be the first: those
before it are made, and then lost. -/
theorem exists_error_applyAll_iff (w : Word) :
    (∃ e, applyAll moves w = .error e) ↔ ∃ m ∈ moves, ¬m.Inside := by
  constructor
  · rintro ⟨e, he⟩
    by_contra hall
    push Not at hall
    obtain ⟨x, hx, -⟩ := applyAll_of_inside hall w
    rw [hx] at he
    cases he
  · rintro ⟨m, hm, hout⟩
    exact exists_error_foldlM_merge hm (exists_error_apply hout w) 0

end Lowering.FieldMove
