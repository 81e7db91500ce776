import Lowering.Target
import Lowering.Target.Rule

/-!
# Lowering — the target with scalar and vector registers

How a machine with a scalar and a vector bank maps instructions. Constants and addresses are
scalar, stores are vector, a load is scalar where its address is uniform and vector elsewhere, and
every other instruction is scalar. Only a load has alternatives: all scalar, all vector, or a
vector value at a scalar address, each dearer than the one before.
-/

namespace Lowering.Gpu

/-- The width of an address in bits, for rules that do not ask for the width of the operand that
holds it. -/
def pointerWidth : UInt32 := 64

/-- The hint that every mapping of this target carries. -/
def hint : Nat := 1

/-- The width of an operand that has to be a register. It fails where there is no such operand,
where it holds something else, and where the width of its register is unknown, in this order. -/
def operandWidth (env : Env) (i : Instr) (k : Nat) : Except Fault UInt32 := do
  match (← i.operandAt k).reg? with
  | some r => env.resolveWidth r
  | none => .error (.notRegister k i)

/-- A mapping of the instruction at some cost. -/
def cover (cost : Nat) (i : Instr) (operands : OperandMap) : Except Fault InstrMapping :=
  InstrMapping.covering cost hint operands i.numOperands

/-- The first operand at its own width in the scalar bank; nothing else is demanded. -/
def scalarDef (env : Env) (i : Instr) : Except Fault InstrMapping := do
  let width ← operandWidth env i 0
  cover InstrMapping.defaultCost i
    (← (OperandMap.absent i.numOperands).set 0 (.scalar width))

/-- Every register operand at its own width in the scalar bank. -/
def scalarRegs (env : Env) (i : Instr) : Except Fault InstrMapping := do
  let operands ← i.regOperands.foldlM
    (fun operands (k, r) => do operands.set k (.scalar (← env.resolveWidth r)))
    (OperandMap.absent i.numOperands)
  cover InstrMapping.defaultCost i operands

/-- The first operand at its own width and the second at the width of a pointer, in the vector
bank. -/
def store (env : Env) (i : Instr) : Except Fault InstrMapping := do
  let width ← operandWidth env i 0
  -- the first entry exists, since the first operand does; the second need not
  let operands ← (OperandMap.absent i.numOperands).set 0 (.vector width)
  let operands ← operands.set 1 (.vector pointerWidth)
  cover InstrMapping.defaultCost i operands

/-- A mapping of value and address of a load, and of nothing else. -/
def valueAndAddress (cost : Nat) (i : Instr) (value address : ValueMapping) :
    Except Fault InstrMapping := do
  let operands ← (OperandMap.absent i.numOperands).set 0 value
  let operands ← operands.set 1 address
  cover cost i operands

/-- Value and address at their own widths in one bank: a uniform address can use a scalar load. -/
def load (env : Env) (i : Instr) : Traced InstrMapping := do
  -- both widths are needed before it is asked whether the address is uniform
  let width ← operandWidth env i 0
  let addressWidth ← operandWidth env i 1
  let bank := if env.uniform i then Bank.scalar else Bank.vector
  Traced.emit (.load i bank)
  valueAndAddress InstrMapping.defaultCost i ⟨bank, width⟩ ⟨bank, addressWidth⟩

/-- Scalar demands on a row of operands. A register is demanded at its own width, and any other
operand at the width of the register last before it, `width` if there is none. The width is carried
along the row as the loop of a rule would carry it. -/
def runningWidths (env : Env) (width : UInt32) :
    List Operand → Except Fault (List (Option ValueMapping))
  | [] => .ok []
  | op :: ops => do
    let width ← match op.reg? with
      | some r => env.resolveWidth r
      | none => .ok width
    let entries ← runningWidths env width ops
    .ok (some (.scalar width) :: entries)

/-- The mapping of an instruction without a rule: a scalar demand on every operand. -/
def fallback (env : Env) (i : Instr) : Except Fault InstrMapping := do
  cover InstrMapping.defaultCost i ⟨← runningWidths env 0 i.operands⟩

/-- The target's own mapping, by the rule of the opcode. An opcode without a rule gets the fallback,
and the log says so. -/
def mapping (env : Env) (i : Instr) : Traced InstrMapping :=
  match i.opcode.rule? with
  | some .scalarDef => scalarDef env i
  | some .scalarRegs => scalarRegs env i
  | some .store => store env i
  | some .load => load env i
  | none => do
    Traced.emit (.noRule i)
    fallback env i

/-- The ways to load: cost, bank of the value, bank of the address. -/
def loadChoices : List (Nat × Bank × Bank) :=
  [(1, .scalar, .scalar), (2, .vector, .vector), (3, .vector, .scalar)]

/-- The alternatives of a load do not ask whether its address is uniform, and take the address at
the width of a pointer. -/
def alternatives (env : Env) (i : Instr) : Except Fault (List InstrMapping) :=
  if i.opcode.rule?.any Rule.hasAlternatives then do
    let width ← operandWidth env i 0
    loadChoices.mapM fun (cost, valueBank, addressBank) =>
      valueAndAddress cost i ⟨valueBank, width⟩ ⟨addressBank, pointerWidth⟩
  else .ok []

/-- The bank that stores a class. -/
def bankOfClass (c : RegClass) : Bank :=
  if c.isScalar then .scalar else .vector

/-- The target's own mappings alone, with nothing said beyond what every target has to say. -/
def plain : Target where
  mapping := mapping
  bankOfClass := bankOfClass

end Gpu

/-- The target with its alternatives. It differs from `Gpu.plain` in these alone. -/
def gpu : Target :=
  { Gpu.plain with alternatives := fun env i => Gpu.alternatives env i }

end Lowering
