import Lowering.Fixup.BitRange

/-!
# Lowering — code buffers

Encoded code is a growing row of bytes. Words of up to eight bytes are read and written anywhere
inside it, the low byte first: `littleEndian` puts a word together and `wordBytes` takes one apart.
-/

namespace Lowering

/-- The word of a row of bytes, low byte first. -/
def littleEndian : List UInt8 → Word
  | [] => 0
  | b :: bs => b.toBitVec.setWidth 64 ||| (littleEndian bs <<< 8)

/-- The `n` low bytes of a word, low byte first. The bits above them are dropped. -/
def wordBytes : Nat → Word → List UInt8
  | 0, _ => []
  | n + 1, w => UInt8.ofBitVec (w.setWidth 8) :: wordBytes n (w >>> 8)

/-- As many bytes are taken off a word as are asked for. A write leaves the size of the code as it
was for this reason. -/
@[simp] theorem length_wordBytes (n : Nat) (w : Word) : (wordBytes n w).length = n := by
  induction n generalizing w with
  | zero => rfl
  | succ n ih => simp [wordBytes, ih]

/-- Code as a row of bytes. A buffer only ever grows at its end; patching replaces bytes that are
already there. -/
structure CodeBuffer where
  bytes : List UInt8
deriving DecidableEq

namespace CodeBuffer

/-- The buffer without any code. -/
def empty : CodeBuffer :=
  ⟨[]⟩

/-- The buffer of `n` zero bytes. -/
def zeroed (n : Nat) : CodeBuffer :=
  ⟨List.replicate n 0⟩

/-- The size in bytes, which is also the offset of what is appended next. -/
def size (b : CodeBuffer) : Nat :=
  b.bytes.length

/-! ## Growing -/

/-- Appends some bytes. -/
def append (b : CodeBuffer) (bytes : List UInt8) : CodeBuffer :=
  ⟨b.bytes ++ bytes⟩

/-- Appends `n` zero bytes. -/
def zeroFill (b : CodeBuffer) (n : Nat) : CodeBuffer :=
  b.append (List.replicate n 0)

/-- Appends an instruction word, low byte first. -/
def emit (b : CodeBuffer) (word : UInt32) : CodeBuffer :=
  b.append (wordBytes 4 (word.toBitVec.setWidth 64))

/-- Appends `n` bytes of padding. Data may stand between instructions, so the padding need not be a
whole number of them; zeroes do for both. -/
def pad (b : CodeBuffer) (n : Nat) : CodeBuffer :=
  b.zeroFill n

/-! ## Words -/

/-- Refuses a word that is too wide, or else one that does not lie inside the buffer. The end of a word
is a number that does not wrap around. -/
def checkWord (b : CodeBuffer) (offset numBytes : Nat) : Except PatchFault Unit :=
  if 8 < numBytes then .error (.wordTooWide numBytes)
  else if b.size < offset + numBytes then .error (.wordOutside numBytes offset b.size)
  else .ok ()

/-- The word of `numBytes` bytes at `offset`. -/
def read (b : CodeBuffer) (offset numBytes : Nat) : Except PatchFault Word := do
  b.checkWord offset numBytes
  return littleEndian ((b.bytes.drop offset).take numBytes)

/-- The buffer with the low bytes of a word at `offset`. The size stays what it was. -/
def write (b : CodeBuffer) (offset numBytes : Nat) (word : Word) :
    Except PatchFault CodeBuffer := do
  b.checkWord offset numBytes
  return ⟨b.bytes.take offset ++ wordBytes numBytes word ++ b.bytes.drop (offset + numBytes)⟩

/-- Whether no bit of the mask is set in the word at `offset`. -/
def isClear (b : CodeBuffer) (offset numBytes : Nat) (mask : Word) : Except PatchFault Bool := do
  return (← b.read offset numBytes) &&& mask == 0

end CodeBuffer

end Lowering
