import Lowering.Instr.Opcode

/-!
# Lowering — mapping rules

The opcodes that the machine treats in a way of their own, and how. All others share one fallback
and have no rule.
-/

namespace Lowering

/-- How an opcode is mapped. The rules say which operands are demanded, in which bank and at which
width. -/
inductive Rule where
  /-- A materialized constant: the definition is scalar, at its own width. -/
  | scalarDef
  /-- Address arithmetic: every register is scalar, at its own width. -/
  | scalarRegs
  /-- Value and address are vector, and the address has the width of a pointer. -/
  | store
  /-- Scalar or vector, by whether the address is uniform. -/
  | load
deriving DecidableEq

/-- Whether the machine can do the instruction in more than one way. -/
def Rule.hasAlternatives : Rule → Bool
  | load => true
  | _ => false

/-- The rule of an opcode. -/
def Opcode.rule? : Opcode → Option Rule
  | constant => some .scalarDef
  | gep => some .scalarRegs
  | store => some .store
  | load => some .load
  | _ => none

/-- Loads alone can be done in more than one way. -/
theorem Opcode.hasAlternatives_iff {op : Opcode} :
    op.rule?.any Rule.hasAlternatives = true ↔ op = load := by
  cases op <;> decide

end Lowering
