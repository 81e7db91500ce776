import Lowering.Code.Buffer

/-!
# Lowering — code as a string of bits

Bit `8 * i + j` of a code buffer is bit `j` of its byte `i`, which is the order in which words are
stored. So reading a word takes a window of the string (`CodeBuffer.read_of_inside`) and writing one
replaces a window and nothing else (`CodeBuffer.write_of_inside`), wherever the window starts and
however it lies to the words that were written before.
-/

namespace Lowering

/-! ## Rows of bytes

The bits of a row count through the bytes, eight for each and the low one first. Taking, dropping
and appending bytes is taking, dropping and appending bits, eight times as many. -/

/-- Bit `p` of a row of bytes, clear behind its end. -/
def bitAt (bytes : List UInt8) (p : Nat) : Bool :=
  match bytes[p / 8]? with
  | some b => b.toBitVec.getLsbD (p % 8)
  | none => false

theorem bitAt_nil (p : Nat) : bitAt [] p = false := rfl

theorem bitAt_cons (b : UInt8) (bs : List UInt8) (p : Nat) :
    bitAt (b :: bs) p = if p < 8 then b.toBitVec.getLsbD p else bitAt bs (p - 8) := by
  unfold bitAt
  by_cases hp : p < 8
  · rw [if_pos hp, show p / 8 = 0 by omega, show p % 8 = p by omega]
    rfl
  · rw [if_neg hp, show p / 8 = (p - 8) / 8 + 1 by omega, show p % 8 = (p - 8) % 8 by omega]
    rfl

/-- The bits of two rows in a row: first those of the one, then those of the other. Since both bytes
and bits are counted from the left, nothing is said of what lies inside a byte. -/
theorem bitAt_append (a b : List UInt8) (p : Nat) :
    bitAt (a ++ b) p = if p < 8 * a.length then bitAt a p else bitAt b (p - 8 * a.length) := by
  unfold bitAt
  by_cases hp : p < 8 * a.length
  · rw [if_pos hp, List.getElem?_append_left (by omega)]
  · rw [if_neg hp, List.getElem?_append_right (by omega),
      show (p - 8 * a.length) / 8 = p / 8 - a.length by omega,
      show (p - 8 * a.length) % 8 = p % 8 by omega]

theorem bitAt_take (bs : List UInt8) (n p : Nat) :
    bitAt (bs.take n) p = (decide (p < 8 * n) && bitAt bs p) := by
  unfold bitAt
  by_cases hp : p < 8 * n
  · rw [List.getElem?_take_of_lt (by omega), decide_eq_true hp, Bool.true_and]
  · rw [List.getElem?_take_eq_none (by omega), decide_eq_false hp, Bool.false_and]

theorem bitAt_drop (bs : List UInt8) (n p : Nat) : bitAt (bs.drop n) p = bitAt bs (8 * n + p) := by
  unfold bitAt
  rw [List.getElem?_drop, show (8 * n + p) / 8 = n + p / 8 by omega,
    show (8 * n + p) % 8 = p % 8 by omega]

theorem bitAt_replicate_zero (n p : Nat) : bitAt (List.replicate n 0) p = false := by
  unfold bitAt
  rw [List.getElem?_replicate]
  by_cases hp : p / 8 < n
  · rw [if_pos hp]
    exact BitVec.getLsbD_zero
  · rw [if_neg hp]

/-- The word of a row of bytes holds its bits, as many as there are in a word. Induction on the
bytes: those behind the first are moved up by its eight bits. -/
theorem getLsbD_littleEndian (bs : List UInt8) {k : Nat} (hk : k < 64) :
    (littleEndian bs).getLsbD k = bitAt bs k := by
  induction bs generalizing k with
  | nil =>
    rw [bitAt_nil]
    exact BitVec.getLsbD_zero
  | cons b bs ih =>
    rw [bitAt_cons]
    simp only [littleEndian, BitVec.getLsbD_or, BitVec.getLsbD_setWidth, BitVec.getLsbD_shiftLeft,
      hk, decide_true, Bool.true_and]
    -- the first byte, or the others moved up by its eight bits
    by_cases h : k < 8
    · simp [h]
    · rw [if_neg h, ih (by omega), BitVec.getLsbD_of_ge _ _ (by omega)]
      simp [h]

/-- The bytes of a word hold its bits, as many as there are in that number of bytes. Induction on
the number of bytes. -/
theorem bitAt_wordBytes (n : Nat) (w : Word) (p : Nat) :
    bitAt (wordBytes n w) p = (decide (p < 8 * n) && w.getLsbD p) := by
  induction n generalizing w p with
  | zero => simp [wordBytes, bitAt_nil]
  | succ n ih =>
    rw [wordBytes, bitAt_cons]
    by_cases h : p < 8
    · simp [h, show p < 8 * (n + 1) by omega]
    · rw [if_neg h, ih, BitVec.getLsbD_ushiftRight, show 8 + (p - 8) = p by omega]
      simp only [show p - 8 < 8 * n ↔ p < 8 * (n + 1) by omega]

/-! ## Buffers

With the bits in hand, a buffer is its size and a function from numbers to bits
(`CodeBuffer.ext_of_bit`). Reading and writing a word are a window of that function; whether the
word is inside the buffer is all that they check. -/

namespace CodeBuffer

/-- Bit `p` of the code. -/
def bit (b : CodeBuffer) (p : Nat) : Bool :=
  bitAt b.bytes p

theorem bit_zeroed (n p : Nat) : (zeroed n).bit p = false :=
  bitAt_replicate_zero n p

/-- Code is determined by its size and its bits. Statements about batches of fixups are proved bit
by bit, and this turns them into equations of code. -/
theorem ext_of_bit {b c : CodeBuffer} (hsize : b.size = c.size) (hbits : ∀ p, b.bit p = c.bit p) :
    b = c := by
  have hbytes : b.bytes = c.bytes := by
    apply List.ext_getElem hsize
    intro i hb hc
    apply UInt8.toBitVec_inj.1
    apply BitVec.eq_of_getLsbD_eq
    intro j hj
    -- bit `j` of byte `i`
    have hbit := hbits (8 * i + j)
    unfold bit bitAt at hbit
    rw [show (8 * i + j) / 8 = i by omega, show (8 * i + j) % 8 = j by omega,
      List.getElem?_eq_getElem hb, List.getElem?_eq_getElem hc] at hbit
    exact hbit
  cases b
  cases c
  exact congrArg mk hbytes

theorem checkWord_of_inside {b : CodeBuffer} {offset n : Nat} (hn : n ≤ 8)
    (hin : offset + n ≤ b.size) : b.checkWord offset n = .ok () := by
  unfold checkWord
  rw [if_neg (by omega), if_neg (by omega)]

/-- A word that reaches past the end is refused as a whole. -/
theorem checkWord_of_outside {b : CodeBuffer} {offset n : Nat} (hn : n ≤ 8)
    (hout : b.size < offset + n) :
    b.checkWord offset n = .error (.wordOutside n offset b.size) := by
  unfold checkWord
  rw [if_neg (by omega), if_pos hout]

theorem read_of_outside {b : CodeBuffer} {offset n : Nat} (hn : n ≤ 8)
    (hout : b.size < offset + n) : b.read offset n = .error (.wordOutside n offset b.size) := by
  unfold read
  rw [checkWord_of_outside hn hout]
  rfl

/-- The word at `offset` is the window of the bits from there on, with zeros behind it. -/
theorem read_of_inside {b : CodeBuffer} {offset n : Nat} (hn : n ≤ 8)
    (hin : offset + n ≤ b.size) :
    ∃ w, b.read offset n = .ok w ∧
      ∀ k, w.getLsbD k = (decide (k < 8 * n) && b.bit (8 * offset + k)) := by
  -- the word is made of `n` bytes, and bytes that are not there count as zero
  refine ⟨littleEndian ((b.bytes.drop offset).take n), ?_, ?_⟩
  · unfold read
    rw [checkWord_of_inside hn hin]
    rfl
  · intro k
    by_cases hk : k < 64
    · rw [getLsbD_littleEndian _ hk, bitAt_take, bitAt_drop]
      rfl
    · rw [BitVec.getLsbD_of_ge _ _ (by omega), decide_eq_false (by omega), Bool.false_and]

/-- A word is written to the window of the bits from `offset` on, and to no other bits. The three
parts of the new row are what was before the window, the bytes of the word, and what was behind
it. -/
theorem write_of_inside {b : CodeBuffer} {offset n : Nat} (w : Word) (hn : n ≤ 8)
    (hin : offset + n ≤ b.size) :
    ∃ c, b.write offset n w = .ok c ∧ c.size = b.size ∧
      ∀ p, c.bit p =
        if 8 * offset ≤ p ∧ p < 8 * (offset + n) then w.getLsbD (p - 8 * offset) else b.bit p := by
  have hlen : (b.bytes.take offset).length = offset :=
    List.length_take_of_le (show offset ≤ b.size by omega)
  refine ⟨⟨b.bytes.take offset ++ wordBytes n w ++ b.bytes.drop (offset + n)⟩, ?_, ?_, ?_⟩
  · unfold write
    rw [checkWord_of_inside hn hin]
    rfl
  · unfold size at hin ⊢
    simp only [List.length_append, List.length_drop, length_wordBytes, hlen]
    omega
  · intro p
    unfold bit
    rw [List.append_assoc, bitAt_append, hlen]
    -- before the window, inside it, and behind it
    by_cases hbefore : p < 8 * offset
    · rw [if_pos hbefore, if_neg (by omega), bitAt_take, decide_eq_true hbefore, Bool.true_and]
    · rw [if_neg hbefore, bitAt_append, length_wordBytes]
      by_cases hwindow : p - 8 * offset < 8 * n
      · rw [if_pos hwindow, if_pos (by omega), bitAt_wordBytes, decide_eq_true hwindow,
          Bool.true_and]
      · rw [if_neg hwindow, if_neg (by omega), bitAt_drop]
        congr 1
        omega

end CodeBuffer

end Lowering
