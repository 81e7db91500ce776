import Lowering.Traced

/-!
# Lowering — bank selections

What bank selection decides about a stream of instructions: the mapping chosen for each of them
and its price, the copies that bring registers into the banks where they are demanded, and the
bank in which every register lives.
-/

namespace Lowering

/-- A copy of a register out of the bank where it lives, for one operand of one instruction. -/
structure Repair where
  instr : Nat
  operand : Nat
  reg : Reg
  source : Bank
  dest : Bank
  width : UInt32
  cost : Nat
deriving DecidableEq

/-- The mapping chosen for an instruction, with the copies it needs paid for in `total`. -/
structure Choice where
  instr : Nat
  mapping : InstrMapping
  total : Nat
deriving DecidableEq

/-- What was selected: one choice for each instruction, the copies in the order in which they were
found to be needed, and the bank of every register that was demanded or constrained. -/
structure Selection where
  choices : List Choice
  repairs : List Repair
  banks : RegMap Bank

namespace Selection

/-- The bank where a register lives. -/
def bankOf (s : Selection) (r : Reg) : Option Bank :=
  s.banks[r]?

/-- What all choices cost together. -/
def totalCost (s : Selection) : Except Fault Nat :=
  Cost.sum (s.choices.map Choice.total)

end Selection

/-- What a mapping demands of one register operand of its instruction. -/
structure Demand where
  operand : Nat
  reg : Reg
  value : ValueMapping
deriving DecidableEq

/-- The demands of a mapping on the register operands of an instruction, in operand order. -/
def InstrMapping.demands (m : InstrMapping) (i : Instr) : List Demand :=
  i.regOperands.filterMap fun (k, r) => (m.operands.get? k).map fun v => ⟨k, r, v⟩

end Lowering
