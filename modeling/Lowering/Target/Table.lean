import Lowering.Target.Gpu

/-!
# Lowering — targets given by a table

A target may be described by data: fixed mappings for some opcodes, a cost for each pair of banks,
a surcharge by width, and banks for some classes. Where the table is silent, the target over which
it is laid answers.
-/

namespace Lowering

/-- The mappings of one opcode, whatever the instruction. -/
structure FixedMappings where
  mapping : InstrMapping
  alternatives : List InstrMapping

/-- A description of a target by data. What the table leaves open is left to another target, which
is asked only then. -/
structure TargetTable where
  fixed? : Opcode → Option FixedMappings
  /-- The cost of a copy from the first bank to the second, before the surcharge. -/
  baseCost : Bank → Bank → Nat
  /-- A copy costs one more for every so many bits; nothing if this is zero. -/
  bitsPerCost : Nat
  bank? : RegClass → Option Bank

namespace TargetTable

/-- The cost of a copy; the surcharge applies within a bank as well. -/
def copyCost (table : TargetTable) (source dest : Bank) (width : UInt32) : Except Fault Nat :=
  Cost.add (table.baseCost source dest)
    (if table.bitsPerCost = 0 then 0 else width.toNat / table.bitsPerCost)

/-- The table laid over a target. -/
def laidOver (table : TargetTable) (t : Target) : Target where
  mapping env i :=
    match table.fixed? i.opcode with
    | some entry => pure entry.mapping
    | none => t.mapping env i
  alternatives env i :=
    match table.fixed? i.opcode with
    | some entry => pure entry.alternatives
    | none => t.alternatives env i
  bankOfClass c := (table.bank? c).getD (t.bankOfClass c)
  copyCost := table.copyCost

end TargetTable

end Lowering
