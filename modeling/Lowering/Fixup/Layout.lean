import Lowering.Fixup.BitRange

/-!
# Lowering — where a fixup is stored

The layout of a fixup kind says where in the word its field lies, whether its value is relative to
the program counter, and how the bits of a scattered immediate move into place. `Layout.stored` is
what a value is turned into before it is merged into the word.
-/

namespace Lowering

/-- Where a value goes in the word that is patched. The field is the bits that the merged value may
set; with a scattered immediate they are set by the moves. -/
structure Layout where
  name : String
  /-- The lowest bit of the field. -/
  offset : Nat
  /-- The width of the field in bits. -/
  width : Nat
  pcRelative : Bool := false
  /-- The moves of a scattered immediate; none for a field in one piece. -/
  moves : List FieldMove := []
deriving DecidableEq

namespace Layout

/-- How far the program counter is ahead of an instruction while it executes. -/
def fetchOffset : Int64 := 4

/-- The word in which the bits of the field are set. -/
def mask (l : Layout) : Except PatchFault Word :=
  BitRange.mask ⟨l.offset, l.width⟩

/-- The word that the moves make of a word. -/
def repack (l : Layout) (w : Word) : Except PatchFault Word :=
  FieldMove.applyAll l.moves w

/-- The least signed value of `n` bits, for `n` from 1 to 63. -/
def signedMin (n : Nat) : Int64 :=
  -((1 : Int64) <<< Int64.ofNat (n - 1))

/-- The greatest signed value of `n` bits, for `n` from 1 to 63. -/
def signedMax (n : Nat) : Int64 :=
  (1 : Int64) <<< Int64.ofNat (n - 1) - 1

/-- Whether the value is a signed number of the field's width. A field of no bits holds zero alone,
and a field of 64 bits or more holds every value. -/
def fitsSigned (l : Layout) (value : Int64) : Bool :=
  if l.width = 0 then value == 0
  else if 64 ≤ l.width then true
  else signedMin l.width ≤ value && value ≤ signedMax l.width

/-- What is stored for a value: a relative value counts from the program counter, a scattered value
is repacked, and any other value is stored as it is. -/
def stored (l : Layout) (value : Int64) : Except PatchFault Int64 :=
  if l.pcRelative then .ok (value - fetchOffset)
  else if l.moves.isEmpty then .ok value
  else do return Int64.ofBitVec (← l.repack value.toBitVec)

end Layout

end Lowering
