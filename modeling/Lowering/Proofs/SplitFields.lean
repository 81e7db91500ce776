import Lowering.Fixup.Layout
import Lowering.Proofs.FieldMoves
import Mathlib.Data.List.Pairwise

/-!
# Lowering — a scattered field put together again

The moves of a layout scatter the bits of a value over a word. Where no two of them share a place,
each bit of the word comes from one bit of the value, so the moves in reverse bring back all that
was taken. Sources may overlap: a bit that is taken twice comes back twice, and merges with itself.

* `FieldMove.reverse`, `Layout.reversed` — the moves from the places back to the sources.
* `FieldMove.getLsbD_of_apart` — a place holds what its own move has put there.
* `Layout.repack_split` — what the moves set, when they fail, and what their reversal brings back.
-/

namespace Lowering

namespace BitRange

/-- No bit belongs to both ranges. -/
def Apart (r s : BitRange) : Prop :=
  ∀ k, ¬(r.Covers k ∧ s.Covers k)

theorem Apart.symm {r s : BitRange} (h : r.Apart s) : s.Apart r :=
  fun k hk => h k hk.symm

/-- Ranges are apart if one ends before the other begins, or if one of them is empty. -/
theorem apart_iff {r s : BitRange} :
    r.Apart s ↔ r.lsb + r.width ≤ s.lsb ∨ s.lsb + s.width ≤ r.lsb ∨ r.width = 0 ∨ s.width = 0 := by
  unfold Apart Covers
  constructor
  · intro h
    have hlow := h (max r.lsb s.lsb)
    omega
  · intro h k
    omega

instance (r s : BitRange) : Decidable (r.Apart s) :=
  decidable_of_iff _ apart_iff.symm

end BitRange

namespace FieldMove

/-- The bits that the move writes. -/
def place (m : FieldMove) : BitRange :=
  ⟨m.toLsb, m.source.width⟩

/-- The move from the place back to the source. -/
def reverse (m : FieldMove) : FieldMove :=
  ⟨m.place, m.source.lsb⟩

/-- The moves write different bits. -/
def Apart (m n : FieldMove) : Prop :=
  m.place.Apart n.place

instance (m n : FieldMove) : Decidable (m.Apart n) :=
  inferInstanceAs (Decidable (m.place.Apart n.place))

instance : Std.Symm Apart where
  symm _ _ h := BitRange.Apart.symm h

/-- Source and place of the move start and end inside the word. -/
structure Within (m : FieldMove) : Prop where
  inside : m.Inside
  source_end : m.source.lsb + m.source.width ≤ 64
  place_end : m.toLsb + m.source.width ≤ 64

instance (m : FieldMove) : Decidable m.Within :=
  decidable_of_iff ((m.source.lsb < 64 ∧ m.toLsb < 64) ∧ m.source.lsb + m.source.width ≤ 64 ∧
      m.toLsb + m.source.width ≤ 64)
    ⟨fun h => ⟨h.1, h.2.1, h.2.2⟩, fun h => ⟨h.inside, h.source_end, h.place_end⟩⟩

/-- The word in which the bits of all sources are set. -/
def sourceMask (moves : List FieldMove) : Except PatchFault Word :=
  moves.foldlM (fun merged m => do return merged ||| (← m.source.mask)) 0

variable {m : FieldMove} {moves : List FieldMove} {w x : Word} {k : Nat}

/-- A move sets a bit of its place if the bit of the source that goes there is set, and both are
bits of the word. -/
theorem sets_iff :
    m.Sets w k ↔ m.place.Covers k ∧ k < 64 ∧ m.source.lsb + (k - m.toLsb) < 64 ∧
      w.getLsbD (m.source.lsb + (k - m.toLsb)) = true := by
  unfold Sets place BitRange.Covers
  constructor
  · intro h
    obtain ⟨hlow, hhigh, hk, hset⟩ := h
    exact ⟨⟨hlow, hhigh⟩, hk, BitVec.lt_of_getLsbD hset, hset⟩
  · intro h
    obtain ⟨⟨hlow, hhigh⟩, hk, -, hset⟩ := h
    exact ⟨hlow, hhigh, hk, hset⟩

/-- Moves from inside the word have a mask of all their sources together. -/
theorem sourceMask_of_inside (h : ∀ m ∈ moves, m.Inside) :
    ∃ x, sourceMask moves = .ok x ∧
      ∀ k, x.getLsbD k = true ↔ ∃ m ∈ moves, m.source.Covers k ∧ k < 64 := by
  refine foldlM_merge_zero ?_
  intro m hm
  obtain ⟨y, hy, hbits⟩ := BitRange.mask_of_lt (h m hm).1
  refine ⟨y, hy, ?_⟩
  intro k
  rw [hbits, decide_eq_true_eq]

/-- A place holds what its own move has put there, since no other move writes to it. -/
theorem getLsbD_of_apart (hwithin : ∀ m ∈ moves, m.Within)
    (hapart : moves.Pairwise Apart)
    (hbits : ∀ k, x.getLsbD k = true ↔ ∃ m ∈ moves, m.Sets w k)
    (hm : m ∈ moves) (hk : m.place.Covers k) :
    x.getLsbD k = w.getLsbD (m.source.lsb + (k - m.toLsb)) := by
  rw [Bool.eq_iff_iff, hbits]
  constructor
  · rintro ⟨n, hn, hsets⟩
    have hcovers : n.place.Covers k := (sets_iff.1 hsets).1
    -- the bit lies in the places of both moves, so they are one and the same
    have heq : n = m := by
      by_contra hne
      exact hapart.forall hn hm hne k ⟨hcovers, hk⟩
    subst heq
    exact (sets_iff.1 hsets).2.2.2
  · intro hset
    have hlt : k < 64 := Nat.lt_of_lt_of_le hk.2 (hwithin m hm).place_end
    exact ⟨m, hm, sets_iff.2 ⟨hk, hlt, BitVec.lt_of_getLsbD hset, hset⟩⟩

/-- A reversed move takes bit `k` of the source from where the move has put it. Bits that the source
has outside the word are not there to be brought back, hence the bound on `k`. -/
theorem reverse_sets_iff (hwithin : m.Within)
    (hplace : ∀ k, m.place.Covers k →
      x.getLsbD k = w.getLsbD (m.source.lsb + (k - m.toLsb))) :
    m.reverse.Sets x k ↔ w.getLsbD k = true ∧ m.source.Covers k ∧ k < 64 := by
  have hend : m.source.Covers k → k < 64 := fun h => Nat.lt_of_lt_of_le h.2 hwithin.source_end
  -- where the source has bit `k`, the place has its copy, and the way back ends at `k` again
  have hback : m.source.Covers k →
      x.getLsbD (m.toLsb + (k - m.source.lsb)) = w.getLsbD k := by
    intro h
    obtain ⟨hlow, hhigh⟩ := h
    rw [hplace _ ⟨by simp only [place]; omega, by simp only [place]; omega⟩]
    congr 1
    omega
  unfold Sets
  change m.source.lsb ≤ k ∧ k < m.source.lsb + m.source.width ∧ k < 64 ∧
    x.getLsbD (m.toLsb + (k - m.source.lsb)) = true ↔ _
  constructor
  · intro h
    obtain ⟨hlow, hhigh, hk, hset⟩ := h
    rw [hback ⟨hlow, hhigh⟩] at hset
    exact ⟨hset, ⟨hlow, hhigh⟩, hk⟩
  · intro h
    obtain ⟨hset, hcovers, hk⟩ := h
    exact ⟨hcovers.1, hcovers.2, hk, (hback hcovers).trans hset⟩

/-- The reversed moves bring back the bits of the sources. The places lie apart, so that each holds
what its own move has put there; the sources may overlap, since overlapping ones bring back the same
bits. -/
theorem applyAll_reverse (hwithin : ∀ m ∈ moves, m.Within)
    (hapart : moves.Pairwise Apart)
    (hbits : ∀ k, x.getLsbD k = true ↔ ∃ m ∈ moves, m.Sets w k) {mask : Word}
    (hmask : ∀ k, mask.getLsbD k = true ↔ ∃ m ∈ moves, m.source.Covers k ∧ k < 64) :
    applyAll (moves.map reverse) x = .ok (w &&& mask) := by
  have hinside : ∀ n ∈ moves.map reverse, n.Inside := by
    intro n hn
    obtain ⟨m, hm, rfl⟩ := List.mem_map.1 hn
    exact (hwithin m hm).inside.symm
  obtain ⟨y, hy, hback⟩ := applyAll_of_inside hinside x
  have hbit (k : Nat) : y.getLsbD k = (w &&& mask).getLsbD k := by
    rw [Bool.eq_iff_iff, hback, BitVec.getLsbD_and, Bool.and_eq_true, hmask]
    simp only [List.mem_map, exists_exists_and_eq_and]
    -- overlapping sources bring the same bit back more than once, which the merge does not mind
    have hone (m : FieldMove) (hm : m ∈ moves) :
        m.reverse.Sets x k ↔ w.getLsbD k = true ∧ m.source.Covers k ∧ k < 64 :=
      reverse_sets_iff (hwithin m hm) fun j hj => getLsbD_of_apart hwithin hapart hbits hm hj
    constructor
    · rintro ⟨m, hm, hsets⟩
      obtain ⟨hset, hcovers⟩ := (hone m hm).1 hsets
      exact ⟨hset, m, hm, hcovers⟩
    · rintro ⟨hset, m, hm, hcovers⟩
      exact ⟨m, hm, (hone m hm).2 ⟨hset, hcovers⟩⟩
  rw [hy, BitVec.eq_of_getLsbD_eq fun k _ => hbit k]

end FieldMove

namespace Layout

open FieldMove

/-- The layout with each of its moves reversed. -/
def reversed (l : Layout) : Layout :=
  { l with moves := l.moves.map FieldMove.reverse }

/-- A split into disjoint places loses nothing that it takes, and writes nothing beside its places.
What any moves set is told bit by bit, and they fail if and only if one of them starts outside the
word. -/
theorem repack_split (l : Layout) (w : Word) :
    ((∀ m ∈ l.moves, m.Within) → l.moves.Pairwise Apart →
      ∃ x mask, l.repack w = .ok x ∧ sourceMask l.moves = .ok mask ∧
        l.reversed.repack x = .ok (w &&& mask) ∧
        ∀ k, x.getLsbD k = true → ∃ m ∈ l.moves, m.place.Covers k) ∧
    ((∀ m ∈ l.moves, m.Inside) →
      ∃ x, l.repack w = .ok x ∧ ∀ k, x.getLsbD k = true ↔
        ∃ m ∈ l.moves, m.place.Covers k ∧ k < 64 ∧ m.source.lsb + (k - m.toLsb) < 64 ∧
          w.getLsbD (m.source.lsb + (k - m.toLsb)) = true) ∧
    ((∃ e, l.repack w = .error e) ↔ ∃ m ∈ l.moves, 64 ≤ m.source.lsb ∨ 64 ≤ m.toLsb) := by
  refine ⟨?_, ?_, ?_⟩
  · intro hwithin hapart
    -- moves whose places lie within the word start in it as well
    have hinside : ∀ m ∈ l.moves, m.Inside := fun m hm => (hwithin m hm).inside
    obtain ⟨x, hx, hbits⟩ := applyAll_of_inside hinside w
    obtain ⟨mask, hmask, hmaskBits⟩ := sourceMask_of_inside hinside
    refine ⟨x, mask, hx, hmask, applyAll_reverse hwithin hapart hbits hmaskBits, ?_⟩
    intro k hk
    obtain ⟨m, hm, hsets⟩ := (hbits k).1 hk
    exact ⟨m, hm, (sets_iff.1 hsets).1⟩
  · intro hinside
    obtain ⟨x, hx, hbits⟩ := applyAll_of_inside hinside w
    refine ⟨x, hx, ?_⟩
    intro k
    rw [hbits]
    exact exists_congr fun m => and_congr_right fun _ => sets_iff
  · -- only the two shifts can be refused
    have hout (m : FieldMove) : ¬m.Inside ↔ 64 ≤ m.source.lsb ∨ 64 ≤ m.toLsb := by
      unfold Inside
      omega
    rw [repack, exists_error_applyAll_iff]
    exact exists_congr fun m => and_congr_right fun _ => hout m

/-- Two bytes that share a nibble are split, and put together to the twelve bits they come from. -/
theorem repack_split_shared_nibble :
    ∃ l : Layout, l.moves = [⟨⟨0, 8⟩, 0⟩, ⟨⟨4, 8⟩, 8⟩] ∧
      (∀ m ∈ l.moves, m.Within) ∧ l.moves.Pairwise Apart ∧
      (∃ x mask, l.repack 0xFABC = .ok x ∧ sourceMask l.moves = .ok mask ∧
        l.reversed.repack x = .ok (0xFABC &&& mask) ∧
        ∀ k, x.getLsbD k = true → ∃ m ∈ l.moves, m.place.Covers k) ∧
      l.repack 0xFABC = .ok 0xABBC ∧ l.reversed.repack 0xABBC = .ok 0xABC := by
  have hwithin : ∀ m ∈ [⟨⟨0, 8⟩, 0⟩, ⟨⟨4, 8⟩, 8⟩], FieldMove.Within m := by decide
  have hapart : [⟨⟨0, 8⟩, 0⟩, ⟨⟨4, 8⟩, 8⟩].Pairwise FieldMove.Apart := by decide
  refine ⟨⟨"shared nibble", 0, 16, false, _⟩, rfl, hwithin, hapart, ?_, rfl, rfl⟩
  exact (repack_split _ 0xFABC).1 hwithin hapart

end Layout

end Lowering
