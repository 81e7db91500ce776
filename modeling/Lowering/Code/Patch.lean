import Lowering.Code.Assembly

/-!
# Lowering — patching fixups

Patching merges the bits of a fixup into its field and leaves every other bit of the code as it was;
the field should be clear beforehand, and a field that is not is patched with a warning. Resolving
a batch reports each fixup that is out of range and patches it all the same, so that those after it
are checked too.
-/

namespace Lowering

namespace Fixup

/-- What is stored for a value in the place of the fixup's own. A relative value that is out of range
is reported, and zero stored for it, where there is somewhere to report to; elsewhere it is
left to wrap. -/
def adjust (f : Fixup) (value : Int64) (sink : Bool) : Patching Int64 := do
  let l ← f.kind.layout
  if l.pcRelative && !l.fitsSigned value && sink then
    Patching.report ⟨f.loc, l.name, value, l.width⟩
    return 0
  else
    l.stored value

/-- Reports the fixup if it is out of range, and patches nothing. -/
def process (f : Fixup) : Patching Unit := do
  let _ ← f.adjust f.value true

/-- Patches a value in the place of the fixup's own. The word of the fixup is read once and written
once, with the bits of the value put to those that it has. -/
def apply (f : Fixup) (value : Int64) : Patching Unit := do
  let l ← f.kind.layout
  -- no sink here: a value that is out of range is left to wrap in its field
  let stored ← l.stored value
  let mask ← l.mask
  let size := f.kind.numBytes l
  let word ← Patching.read f.offset size
  if word &&& mask ≠ 0 then
    Patching.emit (.staleField l.name f.offset ((word &&& mask) >>> l.offset))
  Patching.write f.offset size (word ||| ((stored.toBitVec <<< l.offset) &&& mask))

/-- Reports and patches one fixup of a batch. -/
def resolve (f : Fixup) : Patching Unit := do
  f.process
  let l ← f.kind.layout
  Patching.emit (.applying l.name f.offset f.value)
  f.apply f.value

/-- Resolves a batch in order. -/
def resolveAll : List Fixup → Patching Unit
  | [] => return
  | f :: fs => do
    f.resolve
    resolveAll fs

/-! ## Relaxation

Every instruction has the same length, so none is ever replaced by a longer one. -/

/-- Whether an encoded instruction may have to be made longer. -/
def mayNeedRelaxation (_encoded : List UInt8) : Bool :=
  false

/-- Whether the instruction of the fixup has to be made longer for a value. -/
def needsRelaxation (_f : Fixup) (_value : Int64) : Bool :=
  false

/-- The longer form of an encoded instruction; there is none. -/
def relax (_encoded : List UInt8) : Except PatchFault (List UInt8) :=
  .error .fixedEncoding

end Fixup

end Lowering
