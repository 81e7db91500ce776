/-!
# Lowering — broken contracts of patching

A fault says which contract of the code and fixup side a caller broke. A value that does not fit
its field is no fault; it is reported, and patching goes on.
-/

namespace Lowering

/-- Why patching stops. Each fault is the caller's: a kind that is none, a word that is not in the
code, or arithmetic that leaves its type. -/
inductive PatchFault where
  /-- There is no fixup kind of this number. -/
  | invalidKind (raw : Nat)
  /-- A generic kind was asked for, and this is none. -/
  | targetSpecific (raw : Nat)
  /-- The number of a kind left its 32 bits. -/
  | addOverflow
  /-- A word was shifted left by its width or more. -/
  | shiftLeftOverflow
  /-- A word was shifted right by its width or more. -/
  | shiftRightOverflow
  /-- A word of more than eight bytes was asked for. -/
  | wordTooWide (numBytes : Nat)
  /-- A word does not lie inside the buffer. -/
  | wordOutside (numBytes offset size : Nat)
  /-- An instruction was to be made longer. -/
  | fixedEncoding
deriving DecidableEq

/-- The wording of a fault. -/
def PatchFault.message : PatchFault → String
  | invalidKind raw => "invalid fixup kind " ++ raw.repr
  | targetSpecific raw => "fixup kind " ++ raw.repr ++ " is target specific"
  | addOverflow => "attempt to add with overflow"
  | shiftLeftOverflow => "attempt to shift left with overflow"
  | shiftRightOverflow => "attempt to shift right with overflow"
  | wordTooWide numBytes => "words are at most 8 bytes, got " ++ numBytes.repr
  | wordOutside numBytes offset size =>
    numBytes.repr ++ "-byte word at offset " ++ offset.repr ++ " is outside the " ++ size.repr
      ++ "-byte buffer"
  | fixedEncoding => "relax_instruction: Nyuzi instructions have a fixed 4-byte encoding"

end Lowering
