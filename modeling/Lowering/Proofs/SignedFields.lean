import Lowering.Fixup.Layout
import Mathlib.Data.BitVec
import Mathlib.Data.Int.Basic

/-!
# Lowering — signed numbers in a field

A field of `n` bits holds the numbers from `-2 ^ (n - 1)` up to and without `2 ^ (n - 1)`
(`Layout.Signed`). These are the numbers that come back when only the low `n` bits of a word are kept
and read as a number in two's complement (`Layout.bmod_eq_self_iff`), and the values that pass the
check of the layout (`Layout.fitsSigned_iff`). So the check of a field of any width, none and more than
a word included, is whether sign extension brings the value back (`Layout.fitsSigned_exact`).
-/

namespace Lowering.Layout

/-- The signed numbers of `n` bits, for `n` from 1 on. -/
def Signed (n : Nat) (v : Int) : Prop :=
  -2 ^ (n - 1) ≤ v ∧ v < 2 ^ (n - 1)

instance (n : Nat) (v : Int) : Decidable (Signed n v) :=
  inferInstanceAs (Decidable (_ ∧ _))

/-- The low bits of a word, read as a signed number. -/
theorem toInt_setWidth {m n : Nat} (h : n ≤ m) (x : BitVec m) :
    (x.setWidth n).toInt = x.toInt.bmod (2 ^ n) := by
  rw [BitVec.toInt_setWidth, BitVec.toInt_eq_toNat_bmod,
    Int.bmod_bmod_of_dvd (Nat.pow_dvd_pow 2 h)]

/-- A number comes back from `n` bits exactly if it is a signed number of `n` bits. -/
theorem bmod_eq_self_iff {n : Nat} (h : 0 < n) (v : Int) :
    v.bmod (2 ^ n) = v ↔ Signed n v := by
  obtain ⟨k, rfl⟩ := Nat.exists_eq_add_one.2 h
  -- both bounds are stated by half of the modulus
  have hpow : ((2 ^ (k + 1) : Nat) : Int) = 2 * 2 ^ k := by
    rw [Nat.pow_succ']
    push_cast
    rfl
  rw [Int.bmod_eq_iff (Nat.two_pow_pos _), hpow, Int.sub_self, Signed, Nat.add_sub_cancel]
  constructor
  · rintro ⟨hlow, hhigh, _⟩
    omega
  · rintro ⟨hlow, hhigh⟩
    exact ⟨by omega, by omega, Int.dvd_zero _⟩

/-! ## The check of a layout

The bounds are computed by shifting one and taking the negative of it, or one less. All of this
happens in 64 bits, so each step has to stay inside them; it does for every width below 64, and for
64 there is no check. -/

/-- A number of 64 bits is not changed by being wrapped into them. -/
theorem bmod_word {v : Int} (hlow : -2 ^ 63 ≤ v) (hhigh : v < 2 ^ 63) :
    v.bmod (2 ^ 64) = v :=
  (bmod_eq_self_iff (by decide) v).2 ⟨hlow, hhigh⟩

/-- A power of two below the sign bit of a word is a positive number of the word. -/
theorem two_pow_bounds {k : Nat} (h : k < 63) : 0 < (2 : Int) ^ k ∧ (2 : Int) ^ k < 2 ^ 63 :=
  ⟨by exact_mod_cast Nat.two_pow_pos k,
    by exact_mod_cast Nat.pow_lt_pow_right (a := 2) (by decide) h⟩

/-- A shift within the word takes one to a power of two. -/
theorem toInt_one_shiftLeft {k : Nat} (h : k < 63) :
    ((1 : Int64) <<< Int64.ofNat k).toInt = 2 ^ k := by
  obtain ⟨hpos, hlt⟩ := two_pow_bounds h
  -- the amount is taken modulo the size of the word, which it is below
  have hamount : (BitVec.ofNat 64 k).smod 64 = BitVec.ofNat 64 k := by
    apply BitVec.eq_of_toInt_eq
    have hk : (BitVec.ofNat 64 k).toInt = k := by
      rw [BitVec.toInt_eq_toNat_bmod, BitVec.toNat_ofNat, Nat.mod_eq_of_lt (by omega)]
      exact bmod_word (by omega) (by omega)
    rw [BitVec.toInt_smod, hk, show (64 : BitVec 64).toInt = 64 by decide,
      Int.fmod_eq_emod_of_nonneg _ (by decide)]
    omega
  rw [← Int64.toInt_toBitVec, Int64.toBitVec_shiftLeft, Int64.toBitVec_ofNat', hamount,
    BitVec.shiftLeft_eq', BitVec.toInt_shiftLeft, BitVec.toNat_ofNat,
    Nat.mod_eq_of_lt (show k < 2 ^ 64 by omega), show (1 : Int64).toBitVec.toNat = 1 by decide,
    Nat.one_shiftLeft, Nat.cast_pow, Nat.cast_ofNat]
  exact bmod_word (by omega) (by omega)

theorem toInt_signedMin {n : Nat} (h : n ≤ 63) : (signedMin n).toInt = -2 ^ (n - 1) := by
  obtain ⟨hpos, hlt⟩ := two_pow_bounds (show n - 1 < 63 by omega)
  rw [signedMin, Int64.toInt_neg, toInt_one_shiftLeft (by omega)]
  exact bmod_word (by omega) (by omega)

/-- The greatest number of the field is one below that power. -/
theorem toInt_signedMax {n : Nat} (h : n ≤ 63) : (signedMax n).toInt = 2 ^ (n - 1) - 1 := by
  obtain ⟨hpos, hlt⟩ := two_pow_bounds (show n - 1 < 63 by omega)
  rw [signedMax, Int64.toInt_sub, toInt_one_shiftLeft (by omega),
    show (1 : Int64).toInt = 1 by decide]
  exact bmod_word (by omega) (by omega)

/-- A value passes the check of a field exactly if it is a signed number of its width. The check is
for fields that have a bit and are narrower than a word. -/
theorem fitsSigned_iff {l : Layout} (hpos : 0 < l.width) (hlt : l.width < 64) (v : Int64) :
    l.fitsSigned v = true ↔ Signed l.width v.toInt := by
  unfold fitsSigned
  rw [if_neg (by omega), if_neg (by omega), Bool.and_eq_true, decide_eq_true_eq, decide_eq_true_eq,
    Int64.le_iff_toInt_le, Int64.le_iff_toInt_le, toInt_signedMin (by omega),
    toInt_signedMax (by omega), Signed]
  exact and_congr Iff.rfl Int.le_sub_one_iff

/-! ## Sign extension

Another way to say that a number fits: nothing is lost when it is cut off to the width and extended
again. Unlike the bounds this can be said for every width, and so it is what the check is compared
with in general. -/

/-- The low bits of a word, extended by their sign, are the word itself exactly if it holds a signed
number of so many bits. -/
theorem signExtend_setWidth_eq_iff {n : Nat} (hpos : 0 < n) (hlt : n < 64) (x : Word) :
    (x.setWidth n).signExtend 64 = x ↔ Signed n x.toInt := by
  rw [← BitVec.toInt_inj, BitVec.toInt_signExtend_of_le (Nat.le_of_lt hlt),
    toInt_setWidth (Nat.le_of_lt hlt), bmod_eq_self_iff hpos]

/-- No bits are kept, so the word that comes back is zero. -/
theorem signExtend_setWidth_zero (x : Word) : (x.setWidth 0).signExtend 64 = 0 := by
  rw [← BitVec.toInt_inj, BitVec.toInt_signExtend_of_le (Nat.zero_le 64), BitVec.toInt_zero_length]
  rfl

/-- All bits are kept, be there others above them or not. -/
theorem signExtend_setWidth_of_le {n : Nat} (h : 64 ≤ n) (x : Word) :
    (x.setWidth n).signExtend 64 = x := by
  rw [BitVec.signExtend_eq_setWidth_of_le _ h, BitVec.setWidth_setWidth_of_le x h,
    BitVec.setWidth_eq]

/-- The bounds for `n` bits are computed as they are meant: one is shifted to the power of two of the
sign bit, and that power is neither the one number whose negation overflows nor too small for one to
be subtracted from it. -/
structure ExactBounds (n : Nat) : Prop where
  power : ((1 : Int64) <<< Int64.ofNat (n - 1)).toInt = 2 ^ (n - 1)
  neg : ((1 : Int64) <<< Int64.ofNat (n - 1)).toBitVec.negOverflow = false
  sub : ((1 : Int64) <<< Int64.ofNat (n - 1)).toBitVec.ssubOverflow 1 = false

/-- For every width below that of a word the bounds are computed without an overflow. -/
theorem exactBounds {n : Nat} (hlt : n < 64) : ExactBounds n := by
  have hpower := toInt_one_shiftLeft (k := n - 1) (by omega)
  obtain ⟨hpos, hbound⟩ := two_pow_bounds (k := n - 1) (by omega)
  refine ⟨hpower, ?_, ?_⟩
  · rw [BitVec.negOverflow, Int64.toInt_toBitVec, hpower, beq_eq_false_iff_ne]
    omega
  · rw [BitVec.ssubOverflow, Int64.toInt_toBitVec, hpower,
      show (1 : BitVec 64).toInt = 1 by decide]
    simp only [Bool.or_eq_false_iff, decide_eq_false_iff_not]
    omega

/-- The bounds of the check are exact where there are any, and a value passes the check exactly if it
comes back when only the bits of the field are kept and extended by their sign. -/
theorem fitsSigned_exact (l : Layout) (v : Int64) :
    (0 < l.width ∧ l.width < 64 → ExactBounds l.width) ∧
    (l.fitsSigned v = true ↔ (v.toBitVec.setWidth l.width).signExtend 64 = v.toBitVec) := by
  refine ⟨fun h => exactBounds h.2, ?_⟩
  -- no bits and all bits are answered before the bounds are computed
  by_cases hzero : l.width = 0
  · rw [hzero, signExtend_setWidth_zero, eq_comm (a := (0 : Word)), fitsSigned, if_pos hzero,
      beq_iff_eq, ← Int64.toBitVec_inj]
    rfl
  · by_cases hlt : l.width < 64
    · have hpos : 0 < l.width := Nat.pos_of_ne_zero hzero
      rw [fitsSigned_iff hpos hlt, signExtend_setWidth_eq_iff hpos hlt, Int64.toInt_toBitVec]
    · have hle : 64 ≤ l.width := Nat.le_of_not_lt hlt
      rw [signExtend_setWidth_of_le hle, fitsSigned, if_neg hzero, if_pos hle]
      exact iff_of_true rfl rfl

/-- The widest field that is checked: its bounds are exact, its least number passes, and the number
behind its greatest does not. -/
theorem fitsSigned_exact_widest :
    let l : Layout := ⟨"widest", 0, 63, false, []⟩
    ExactBounds l.width ∧ l.fitsSigned (-4611686018427387904) = true ∧
      l.fitsSigned 4611686018427387904 = false := by
  intro l
  have hbounds : ExactBounds l.width := (fitsSigned_exact l 0).1 (by decide)
  have hleast := (fitsSigned_exact l (-4611686018427387904)).2
  have hbehind := (fitsSigned_exact l 4611686018427387904).2
  refine ⟨hbounds, hleast.2 (by decide), ?_⟩
  rw [← Bool.not_eq_true, hbehind]
  decide

end Lowering.Layout
