import Lowering.Env

/-!
# Lowering — instruction mappings

An operand map holds one entry for each operand slot, a value mapping or nothing. An instruction
mapping is an operand map with the cost of choosing it. `InstrMapping.covering` makes one only
if the map covers every operand, and `InstrMapping.verify` says whether a mapping fits an
instruction.
-/

namespace Lowering

/-- What is demanded of the operands of one instruction, slot by slot. A slot without a demand
leaves its operand where it is. -/
structure OperandMap where
  entries : List (Option ValueMapping)
deriving DecidableEq

namespace OperandMap

/-- The map of `n` operands that demands nothing of any of them. -/
def absent (n : Nat) : OperandMap :=
  ⟨List.replicate n none⟩

/-- How many slots there are. -/
def size (m : OperandMap) : Nat :=
  m.entries.length

/-- The demand on operand `k`; there is none past the end. -/
def get? (m : OperandMap) (k : Nat) : Option ValueMapping :=
  m.entries[k]?.join

/-- The map with a demand on operand `k`, a fault past the end. -/
def set (m : OperandMap) (k : Nat) (v : ValueMapping) : Except Fault OperandMap :=
  if k < m.size then .ok ⟨m.entries.set k (some v)⟩ else .error (.outsideMapping k m.size)

/-- A demand can be set exactly on an operand that there is, and nothing else of the map changes. -/
theorem set_eq_ok_iff {m m' : OperandMap} {k : Nat} {v : ValueMapping} :
    m.set k v = .ok m' ↔ k < m.size ∧ m' = ⟨m.entries.set k (some v)⟩ := by
  unfold set
  split
  · next h => simp [h, eq_comm]
  · next h => simp [h]

end OperandMap

/-- One way to place the operands of an instruction, and what it costs before any copies are paid
for. -/
structure InstrMapping where
  cost : Nat
  /-- How many alternatives a chooser may expect. -/
  hint : Nat
  operands : OperandMap
deriving DecidableEq

namespace InstrMapping

/-- The cost of a mapping that nothing makes dearer. -/
def defaultCost : Nat := 1

/-- The mapping for an instruction of `numOperands` operands, a fault if the map has not one entry
for each of them. -/
def covering (cost hint : Nat) (operands : OperandMap) (numOperands : Nat) :
    Except Fault InstrMapping :=
  if operands.size = numOperands then .ok ⟨cost, hint, operands⟩
  else .error (.uncoveredOperands operands.size numOperands)

/-- A mapping is made exactly if its map has one entry for each operand, and then of what was given.
It is the only way in which the rules make mappings, so it is what says that they cover. -/
theorem covering_eq_ok_iff {cost hint numOperands : Nat} {operands : OperandMap}
    {m : InstrMapping} :
    covering cost hint operands numOperands = .ok m ↔
      operands.size = numOperands ∧ m = ⟨cost, hint, operands⟩ := by
  unfold covering
  split
  · next h => simp [h, eq_comm]
  · next h => simp [h]

/-- How many operands the mapping is for. -/
def numOperands (m : InstrMapping) : Nat :=
  m.operands.size

/-- Whether the mapping fits the instruction: it has one entry for each operand, and every register
operand with a demand is demanded at its own width. Other operands may carry a demand of any
width. Register operands are looked at in order, up to the first that does not fit. -/
def verify (m : InstrMapping) (env : Env) (i : Instr) : Except Fault Bool :=
  if m.numOperands = i.numOperands then
    i.regOperands.allM fun (k, r) =>
      match m.operands.get? k with
      | some v => do return v.width == (← env.resolveWidth r)
      | none => pure true
  else pure false

/-- One entry of the written form: the slot, then the demand or a dash. -/
def entryText (slot : Nat) (entry : Option ValueMapping) : String :=
  slot.repr ++ ":" ++ entry.elim "-" ValueMapping.text

/-- The written form: the cost, and then the entries in the order of their slots. -/
def text (m : InstrMapping) : String :=
  "Cost: " ++ m.cost.repr ++ " Mapping: "
    ++ ", ".intercalate (m.operands.entries.zipIdx.map fun (entry, k) => entryText k entry)

end InstrMapping

end Lowering
