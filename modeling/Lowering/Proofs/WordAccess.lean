import Lowering.Code.Assembly
import Lowering.Proofs.CodeBits
import Mathlib.Data.BitVec

/-!
# Lowering — words in a code buffer

A word of at most eight bytes can be read and written wherever it lies inside the buffer, and nowhere
else. What is written is read back, and words that share no byte do not touch one another: a read
does not see the write (`CodeBuffer.read_of_apart`), and of two writes either may come first
(`CodeBuffer.write_comm`). `CodeBuffer.word_access` puts the laws together.
-/

namespace Lowering.CodeBuffer

variable {b c d : CodeBuffer} {offset n offset' m : Nat} {w v : Word}

/-! ## Where a word can be accessed

The check comes first for reads and writes alike, and nothing fails behind it. It is stated without
an overflow in the sum: where the program cannot add the two numbers, they are beyond the end of any
buffer. -/

/-- The check lets pass the words of at most eight bytes that lie inside the buffer. -/
theorem checkWord_eq_ok_iff : b.checkWord offset n = .ok () ↔ n ≤ 8 ∧ offset + n ≤ b.size := by
  constructor
  · intro h
    unfold checkWord at h
    split at h
    · cases h
    · split at h
      · cases h
      · omega
  · exact fun h => checkWord_of_inside h.1 h.2

/-- Reading succeeds exactly if the check lets the word pass. -/
theorem read_answers_iff : (∃ r, b.read offset n = .ok r) ↔ n ≤ 8 ∧ offset + n ≤ b.size := by
  rw [← checkWord_eq_ok_iff]
  unfold read
  cases b.checkWord offset n with
  | ok _ => exact ⟨fun _ => rfl, fun _ => ⟨_, rfl⟩⟩
  | error e => exact ⟨nofun, nofun⟩

/-- So does writing, whatever is written. -/
theorem write_answers_iff : (∃ c, b.write offset n w = .ok c) ↔ n ≤ 8 ∧ offset + n ≤ b.size := by
  rw [← checkWord_eq_ok_iff]
  unfold write
  cases b.checkWord offset n with
  | ok _ => exact ⟨fun _ => rfl, fun _ => ⟨_, rfl⟩⟩
  | error e => exact ⟨nofun, nofun⟩

/-! ## What an access does

Reads and writes are about bytes and words about bits, so both are told bit by bit here: a word is a
window of the bits of the buffer. Later laws compare windows and do not look at bytes again. -/

/-- A word that was read is a window of the bits. -/
theorem read_eq_ok (h : b.read offset n = .ok w) :
    ∀ k, w.getLsbD k = (decide (k < 8 * n) && b.bit (8 * offset + k)) := by
  obtain ⟨hn, hin⟩ := read_answers_iff.1 ⟨w, h⟩
  obtain ⟨w', h', hbits⟩ := read_of_inside hn hin
  cases h.symm.trans h'
  exact hbits

/-- A word that was written fills a window of the bits. -/
theorem write_eq_ok (h : b.write offset n w = .ok c) :
    c.size = b.size ∧ ∀ p, c.bit p =
      if 8 * offset ≤ p ∧ p < 8 * (offset + n) then w.getLsbD (p - 8 * offset) else b.bit p := by
  obtain ⟨hn, hin⟩ := write_answers_iff.1 ⟨c, h⟩
  obtain ⟨c', h', hc⟩ := write_of_inside w hn hin
  cases h.symm.trans h'
  exact hc

/-- A word depends on the bits of its window alone, and whether it can be read on the size. So a
read next to a write is not disturbed by it. -/
theorem read_congr (hsize : c.size = b.size)
    (hbits : ∀ p, 8 * offset ≤ p → p < 8 * (offset + n) → c.bit p = b.bit p) :
    c.read offset n = b.read offset n := by
  by_cases hin : n ≤ 8 ∧ offset + n ≤ b.size
  · obtain ⟨w, hw⟩ := read_answers_iff.2 hin
    obtain ⟨v, hv⟩ := read_answers_iff.2 (hsize ▸ hin)
    -- bits beyond the `n` bytes are zero in both
    have hwv : v = w := by
      apply BitVec.eq_of_getLsbD_eq
      intro k _
      rw [read_eq_ok hw, read_eq_ok hv]
      by_cases hk : k < 8 * n
      · rw [hbits _ (by omega) (by omega)]
      · rw [decide_eq_false hk, Bool.false_and, Bool.false_and]
    rw [hw, hv, hwv]
  · -- outside, the fault names the size, which is the same
    have hcheck : c.checkWord offset n = b.checkWord offset n := by
      unfold checkWord
      rw [hsize]
    unfold read
    rw [hcheck]
    cases hb : b.checkWord offset n with
    | ok _ => exact absurd (checkWord_eq_ok_iff.1 hb) hin
    | error e => rfl

/-- A byte is determined by its eight bits. -/
theorem getElem?_congr (hsize : c.size = b.size) {i : Nat}
    (hbits : ∀ p, 8 * i ≤ p → p < 8 * (i + 1) → c.bit p = b.bit p) : c.bytes[i]? = b.bytes[i]? := by
  by_cases hi : i < b.size
  · have hi' : i < c.size := hsize ▸ hi
    rw [List.getElem?_eq_getElem hi, List.getElem?_eq_getElem hi', Option.some_inj,
      ← UInt8.toBitVec_inj]
    apply BitVec.eq_of_getLsbD_eq
    intro j hj
    have hbit := hbits (8 * i + j) (by omega) (by omega)
    -- bit `j` of the byte is bit `8 * i + j` of the buffer
    unfold bit bitAt at hbit
    rw [show (8 * i + j) / 8 = i by omega, show (8 * i + j) % 8 = j by omega,
      List.getElem?_eq_getElem hi, List.getElem?_eq_getElem hi'] at hbit
    exact hbit
  · have hi' : ¬ i < c.size := hsize ▸ hi
    rw [List.getElem?_eq_none (Nat.not_lt.1 hi), List.getElem?_eq_none (Nat.not_lt.1 hi')]

/-! ## Reading what was written

The window that is read is the one that was filled, so what comes back are the low bits of the
word. -/

/-- The low bits of a word as a number. -/
theorem toNat_eq_mod (h : ∀ k, v.getLsbD k = (decide (k < 8 * n) && w.getLsbD k)) :
    v.toNat = w.toNat % 2 ^ (8 * n) := by
  apply Nat.eq_of_testBit_eq
  intro k
  rw [Nat.testBit_mod_two_pow, BitVec.testBit_toNat, BitVec.testBit_toNat, h]

/-- What was written is read back modulo the size of the word. -/
theorem read_written (h : b.write offset n w = .ok c) :
    ∃ r, c.read offset n = .ok r ∧ r.toNat = w.toNat % 2 ^ (8 * n) := by
  have hin := write_answers_iff.1 ⟨c, h⟩
  obtain ⟨hsize, hbits⟩ := write_eq_ok h
  obtain ⟨r, hr⟩ := read_answers_iff.2 (hsize ▸ hin)
  refine ⟨r, hr, toNat_eq_mod fun k => ?_⟩
  rw [read_eq_ok hr, hbits]
  by_cases hk : k < 8 * n
  · rw [if_pos (by omega), Nat.add_sub_cancel_left]
  · rw [decide_eq_false hk, Bool.false_and, Bool.false_and]

/-- A word that is written where it was read changes nothing. -/
theorem write_read (h : b.read offset n = .ok w) : b.write offset n w = .ok b := by
  obtain ⟨c, hc⟩ := write_answers_iff.2 (read_answers_iff.1 ⟨w, h⟩)
  obtain ⟨hsize, hbits⟩ := write_eq_ok hc
  have hcb : c = b := by
    refine ext_of_bit hsize fun p => ?_
    rw [hbits]
    split
    · next hp => rw [read_eq_ok h, decide_eq_true (by omega), Bool.true_and, Nat.add_sub_of_le hp.1]
    · rfl
  rw [hc, hcb]

/-- Bytes outside a word are not written with it. -/
theorem getElem?_of_write (h : b.write offset n w = .ok c) {i : Nat}
    (hi : i < offset ∨ offset + n ≤ i) : c.bytes[i]? = b.bytes[i]? := by
  obtain ⟨hsize, hbits⟩ := write_eq_ok h
  refine getElem?_congr hsize fun p hle hlt => ?_
  rw [hbits, if_neg (by omega)]

/-! ## Words that share no byte

Two windows without a common byte have no common bit either. That is all that the laws about
different words need. -/

/-- Two rows of bytes, each given by its start and its length, have no byte in common. -/
def Apart (offset n offset' m : Nat) : Prop :=
  ∀ i, ¬ (offset ≤ i ∧ i < offset + n ∧ offset' ≤ i ∧ i < offset' + m)

theorem Apart.symm (h : Apart offset n offset' m) : Apart offset' m offset n :=
  fun i hi => h i ⟨hi.2.2.1, hi.2.2.2, hi.1, hi.2.1⟩

/-- Rows with no byte in common have no bit in common either. -/
theorem Apart.bits (h : Apart offset n offset' m) {p : Nat} (hle : 8 * offset' ≤ p)
    (hlt : p < 8 * (offset' + m)) : ¬ (8 * offset ≤ p ∧ p < 8 * (offset + n)) :=
  fun hp => h (p / 8) ⟨by omega, by omega, by omega, by omega⟩

/-- A word is not touched by a write elsewhere. -/
theorem read_of_apart (h : b.write offset n w = .ok c) (hapart : Apart offset n offset' m) :
    c.read offset' m = b.read offset' m := by
  obtain ⟨hsize, hbits⟩ := write_eq_ok h
  refine read_congr hsize fun p hle hlt => ?_
  rw [hbits, if_neg (hapart.bits hle hlt)]

/-- Two words are written one after the other if each of them lies inside the buffer. -/
theorem write_write_answers_iff :
    (∃ d, (b.write offset n w >>= fun c => c.write offset' m v) = .ok d) ↔
      (n ≤ 8 ∧ offset + n ≤ b.size) ∧ (m ≤ 8 ∧ offset' + m ≤ b.size) := by
  rw [← write_answers_iff (w := w)]
  cases hc : b.write offset n w with
  | error e => exact ⟨nofun, fun h => nomatch h.1⟩
  | ok c =>
    rw [← (write_eq_ok hc).1, ← write_answers_iff (w := v)]
    exact ⟨fun h => ⟨⟨c, rfl⟩, h⟩, And.right⟩

/-- After two writes the bits of the second word are those that it was given, those of the first are
too unless the second has them, and the others are as they were. -/
theorem write_write_eq_ok (h : (b.write offset n w >>= fun c => c.write offset' m v) = .ok d) :
    d.size = b.size ∧ ∀ p, d.bit p =
      if 8 * offset' ≤ p ∧ p < 8 * (offset' + m) then v.getLsbD (p - 8 * offset')
      else if 8 * offset ≤ p ∧ p < 8 * (offset + n) then w.getLsbD (p - 8 * offset)
      else b.bit p := by
  cases hc : b.write offset n w with
  | error e =>
    rw [hc] at h
    cases h
  | ok c =>
    rw [hc] at h
    obtain ⟨hsize, hbits⟩ := write_eq_ok hc
    -- the second word is laid over the first
    obtain ⟨hsize', hbits'⟩ := write_eq_ok (show c.write offset' m v = .ok d from h)
    refine ⟨hsize'.trans hsize, fun p => ?_⟩
    rw [hbits', hbits]

/-- What two writes leave is left by them in the other order as well. Both orders have the same size
and, the windows being apart, the same bits. -/
theorem write_comm_of_ok (hapart : Apart offset n offset' m)
    (h : (b.write offset n w >>= fun c => c.write offset' m v) = .ok d) :
    (b.write offset' m v >>= fun c => c.write offset n w) = .ok d := by
  obtain ⟨d', h'⟩ := write_write_answers_iff (w := v) (v := w) |>.2
    (write_write_answers_iff.1 ⟨d, h⟩).symm
  obtain ⟨hsize, hbits⟩ := write_write_eq_ok h
  obtain ⟨hsize', hbits'⟩ := write_write_eq_ok h'
  have hdd : d' = d := by
    refine ext_of_bit (hsize'.trans hsize.symm) fun p => ?_
    rw [hbits', hbits]
    -- a bit belongs to one of the two words at most
    by_cases hp : 8 * offset' ≤ p ∧ p < 8 * (offset' + m)
    · rw [if_pos hp, if_neg (hapart.bits hp.1 hp.2), if_pos hp]
    · rw [if_neg hp, if_neg hp]
  rw [h', hdd]

/-- Two writes that share no byte may be exchanged: either order leaves the same buffer, or
fails. -/
theorem write_comm (hapart : Apart offset n offset' m) :
    (b.write offset n w >>= fun c => c.write offset' m v) = .ok d ↔
      (b.write offset' m v >>= fun c => c.write offset n w) = .ok d :=
  ⟨write_comm_of_ok hapart, write_comm_of_ok hapart.symm⟩

/-! ## Words and the code behind them

Emitting appends to the buffer, so what was there can be read as before, and what is emitted stands
at the old end. -/

theorem size_append (b : CodeBuffer) (bytes : List UInt8) :
    (b.append bytes).size = b.size + bytes.length :=
  List.length_append

theorem bit_append (b : CodeBuffer) (bytes : List UInt8) (p : Nat) :
    (b.append bytes).bit p = if p < 8 * b.size then b.bit p else bitAt bytes (p - 8 * b.size) :=
  bitAt_append b.bytes bytes p

theorem append_append (b : CodeBuffer) (bytes more : List UInt8) :
    (b.append bytes).append more = b.append (bytes ++ more) :=
  congrArg mk (List.append_assoc b.bytes bytes more)

/-- A word is read as if nothing stood behind the bytes that it was read from. -/
theorem read_append (h : b.read offset n = .ok w) (bytes : List UInt8) :
    (b.append bytes).read offset n = .ok w := by
  obtain ⟨hn, hin⟩ := read_answers_iff.1 ⟨w, h⟩
  -- the window lies in the old part
  have hin' : offset + n ≤ (b.append bytes).size := by
    rw [size_append]
    omega
  obtain ⟨v, hv⟩ := read_answers_iff.2 ⟨hn, hin'⟩
  have hvw : v = w := by
    apply BitVec.eq_of_getLsbD_eq
    intro k _
    rw [read_eq_ok hv, read_eq_ok h, bit_append]
    by_cases hk : k < 8 * n
    · rw [if_pos (by omega)]
    · rw [decide_eq_false hk, Bool.false_and, Bool.false_and]
  rw [hv, hvw]

theorem size_emit (b : CodeBuffer) (word : UInt32) : (b.emit word).size = b.size + 4 := by
  unfold emit
  rw [size_append, length_wordBytes]

/-- The first word that is emitted stands where the buffer ended. -/
theorem read_emit (b : CodeBuffer) (word : UInt32) :
    (b.emit word).read b.size 4 = .ok (word.toBitVec.setWidth 64) := by
  obtain ⟨w, hw⟩ : ∃ w, (b.emit word).read b.size 4 = .ok w :=
    read_answers_iff.2 ⟨by decide, Nat.le_of_eq (size_emit b word).symm⟩
  -- the bytes of the word are those of the window, and above them both are zero
  have hword : w = word.toBitVec.setWidth 64 := by
    apply BitVec.eq_of_getLsbD_eq
    intro k _
    rw [read_eq_ok hw, emit, bit_append, if_neg (by omega), Nat.add_sub_cancel_left,
      bitAt_wordBytes, ← Bool.and_assoc, Bool.and_self]
    by_cases hk : k < 8 * 4
    · rw [decide_eq_true hk, Bool.true_and]
    · rw [decide_eq_false hk, Bool.false_and, BitVec.getLsbD_setWidth,
        BitVec.getLsbD_of_ge _ _ (by omega), Bool.and_false]
  rw [hw, hword]

theorem exists_foldl_emit (b : CodeBuffer) (words : List UInt32) :
    ∃ bytes, words.foldl emit b = b.append bytes := by
  induction words generalizing b with
  | nil => exact ⟨[], congrArg mk (List.append_nil b.bytes).symm⟩
  | cons word words ih =>
    obtain ⟨bytes, h⟩ := ih (b.emit word)
    exact ⟨_, h.trans (append_append b _ bytes)⟩

/-- Words that are emitted one after the other are read back from where the buffer ended. -/
theorem read_emitted (b : CodeBuffer) (words : List UInt32) {i : Nat} (hi : i < words.length) :
    (words.foldl emit b).read (b.size + 4 * i) 4 = .ok (words[i].toBitVec.setWidth 64) := by
  induction words generalizing b i with
  | nil => cases hi
  | cons word words ih =>
    cases i with
    | zero =>
      -- the later words only append to the buffer
      obtain ⟨bytes, hbytes⟩ := exists_foldl_emit (b.emit word) words
      rw [List.foldl_cons, hbytes]
      exact read_append (read_emit b word) bytes
    | succ i =>
      have hsize : b.size + 4 * (i + 1) = (b.emit word).size + 4 * i := by
        rw [size_emit]
        omega
      rw [List.foldl_cons, hsize]
      exact ih (b.emit word) (Nat.lt_of_succ_lt_succ hi)

/-- A word is accessed exactly where it has at most eight bytes that all lie inside the buffer, and a
write elsewhere leaves everything as it was. What is written is read back modulo its bytes, and
touches no byte outside them; a word that is written back where it was read changes nothing, and
writes that share no byte may be exchanged. Words that are emitted are read back one by one. -/
theorem word_access (b : CodeBuffer) (offset n : Nat) (w : Word) :
    ((∃ r, b.read offset n = .ok r) ↔ n ≤ 8 ∧ offset + n ≤ b.size) ∧
      ((∃ c, b.write offset n w = .ok c) ↔ n ≤ 8 ∧ offset + n ≤ b.size) ∧
      (∀ a : Assembly, a.code = b → a.after (Patching.write offset n w) =
        match b.write offset n w with
        | .ok c => (.ok (), { a with code := c })
        | .error e => (.error e, a)) ∧
      (∀ c, b.write offset n w = .ok c → c.size = b.size ∧
        (∃ r, c.read offset n = .ok r ∧ r.toNat = w.toNat % 2 ^ (8 * n)) ∧
        (∀ i, i < offset ∨ offset + n ≤ i → c.bytes[i]? = b.bytes[i]?) ∧
        ∀ offset' m, Apart offset n offset' m → c.read offset' m = b.read offset' m) ∧
      (∀ r, b.read offset n = .ok r → b.write offset n r = .ok b) ∧
      (∀ offset' m v, Apart offset n offset' m → ∀ d,
        (b.write offset n w >>= fun c => c.write offset' m v) = .ok d ↔
          (b.write offset' m v >>= fun c => c.write offset n w) = .ok d) ∧
      ∀ (words : List UInt32) (i : Nat) (hi : i < words.length),
        ∃ r, (words.foldl emit b).read (b.size + 4 * i) 4 = .ok r ∧ r.toNat = words[i].toNat := by
  refine ⟨read_answers_iff, write_answers_iff, ?_, ?_, ?_, ?_, ?_⟩
  · intro a ha
    subst ha
    exact Assembly.after_write a offset n w
  · intro c hc
    exact ⟨(write_eq_ok hc).1, read_written hc, fun i hi => getElem?_of_write hc hi,
      fun offset' m hapart => read_of_apart hc hapart⟩
  · exact fun r hr => write_read hr
  · exact fun offset' m v hapart d => write_comm hapart
  · intro words i hi
    refine ⟨_, read_emitted b words hi, ?_⟩
    rw [BitVec.toNat_setWidth_of_le (by decide)]
    rfl

end Lowering.CodeBuffer
