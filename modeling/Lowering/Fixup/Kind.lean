import Lowering.Fixup.Layout

/-!
# Lowering — fixup kinds

A fixup kind is a number. The kinds below 128 are generic: nothing to patch, or data of one, two or
four bytes. The target has five kinds of its own from there on: three relative to the program
counter, and the upper and the lower part of a constant. No other number from 128 on is a kind.
-/

namespace Lowering

/-- The number of a kind. Any number can be asked for, and those that are no kind are found out
where a layout is looked up (`FixupKind.layout`). -/
structure FixupKind where
  raw : Nat
deriving DecidableEq

namespace FixupKind

/-- The number of the first kind that is the target's own. -/
def firstTarget : Nat := 128

/-- The kind that patches nothing. -/
def nothing : FixupKind := ⟨0⟩
/-- Data of one byte. -/
def data1 : FixupKind := ⟨1⟩
/-- Data of two bytes. -/
def data2 : FixupKind := ⟨2⟩
/-- Data of four bytes. -/
def data4 : FixupKind := ⟨3⟩
/-- The offset of a memory access, relative to the program counter. -/
def memoryAccess : FixupKind := ⟨firstTarget⟩
/-- The target of a branch, relative to the program counter. -/
def branch : FixupKind := ⟨firstTarget + 1⟩
/-- The address of a label, relative to the program counter. -/
def labelAddress : FixupKind := ⟨firstTarget + 2⟩
/-- The upper 19 bits of a constant, which are scattered over two fields of the instruction. -/
def hi19 : FixupKind := ⟨firstTarget + 3⟩
/-- The lower 13 bits of a constant. -/
def immLo13 : FixupKind := ⟨firstTarget + 4⟩

/-- Kind number `index` of the target, a fault where the number of the kind leaves 32 bits. -/
def target (index : Nat) : Except PatchFault FixupKind :=
  if firstTarget + index < UInt32.size then .ok ⟨firstTarget + index⟩ else .error .addOverflow

/-- Whether the number belongs to the target, kind or not. -/
def isTarget (k : FixupKind) : Bool :=
  firstTarget ≤ k.raw

/-! ## Layouts -/

/-- The layout of a generic kind. A number that has no meaning of its own patches nothing. -/
def genericLayout (k : FixupKind) : Except PatchFault Layout :=
  if k.isTarget then .error (.targetSpecific k.raw)
  else .ok <|
    if k = data1 then ⟨"FK_Data_1", 0, 8, false, []⟩
    else if k = data2 then ⟨"FK_Data_2", 0, 16, false, []⟩
    else if k = data4 then ⟨"FK_Data_4", 0, 32, false, []⟩
    else ⟨"FK_NONE", 0, 0, false, []⟩

/-- The layouts of the target's own kinds, in the order of their numbers. -/
def targetLayouts : List Layout :=
  [⟨"fixup_Nyuzi_PCRel_MemAccExt", 10, 15, true, []⟩,
    ⟨"fixup_Nyuzi_PCRel_Branch", 5, 20, true, []⟩,
    ⟨"fixup_Nyuzi_PCRel_ComputeLabelAddress", 10, 14, true, []⟩,
    ⟨"fixup_Nyuzi_HI19", 0, 32, false, [⟨⟨13, 5⟩, 0⟩, ⟨⟨18, 14⟩, 10⟩]⟩,
    ⟨"fixup_Nyuzi_IMM_LO13", 10, 13, false, []⟩]

/-- The layout of a kind, a fault where the number is none. The target's own kinds are numbered in
the order of `targetLayouts`. -/
def layout (k : FixupKind) : Except PatchFault Layout :=
  if k.isTarget then
    match targetLayouts[k.raw - firstTarget]? with
    | some l => .ok l
    | none => .error (.invalidKind k.raw)
  else k.genericLayout

/-- The number of bytes in an instruction. -/
def instrBytes : Nat := 4

/-- How many bytes are read and written for a kind of the given layout: a whole instruction for the
target's kinds, and as many as the field covers for the others. -/
def numBytes (k : FixupKind) (l : Layout) : Nat :=
  if k.isTarget then instrBytes else (l.offset + l.width + 7) / 8

end FixupKind

end Lowering
