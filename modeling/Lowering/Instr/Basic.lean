import Lowering.Instr.Opcode
import Lowering.Reg

/-!
# Lowering — instructions

An instruction is an opcode with an ordered operand list. The first `numDefs` operands are its
definitions, the others its uses; an instruction that touches memory carries one descriptor for
each access. `Instr.text` is the written form, without register types.
-/

namespace Lowering

/-- What stands in an operand slot. Only a register operand is ever given a bank. -/
inductive Operand where
  | reg (r : Reg)
  | imm (value : Int64)
  | symbol (name : String)
deriving DecidableEq

namespace Operand

/-- The register in the slot, if it holds one. -/
def reg? : Operand → Option Reg
  | .reg r => some r
  | _ => none

/-- An operand has a register exactly if it is that register, which turns questions about `reg?`
into questions about membership. -/
theorem reg?_eq_some_iff {op : Operand} {r : Reg} : op.reg? = some r ↔ op = .reg r := by
  cases op <;> simp [reg?]

/-- Whether the slot holds a register. Only such a slot is ever given a bank by selection. -/
def isReg (op : Operand) : Bool :=
  op.reg?.isSome

/-- The written form: a register with its percent sign, an immediate in decimal with its sign, a
symbol with an at sign. -/
def text : Operand → String
  | .reg r => r.text
  | .imm value => value.toInt.repr
  | .symbol name => "@" ++ name

end Operand

/-- Whether the address of a memory access is known to be the same in every lane. -/
inductive Access where
  | uniform
  | divergent
deriving DecidableEq

namespace Access

/-- The written word for an access. -/
def text : Access → String
  | uniform => "uniform"
  | divergent => "divergent"

/-- The access that a word stands for. No other word is one, also not with other capitals. -/
def ofText? (text : String) : Option Access :=
  if text = "uniform" then some uniform
  else if text = "divergent" then some divergent
  else none

end Access

/-- An instruction. Its definitions are the first operands, and the structure carries the proof that
there are that many, so `defs` and `uses` always make up the operand list. -/
structure Instr where
  opcode : Opcode
  operands : List Operand
  numDefs : Nat
  accesses : List Access
  numDefs_le : numDefs ≤ operands.length
deriving DecidableEq

namespace Instr

/-- An instruction that defines nothing and touches no memory. -/
def ofOperands (opcode : Opcode) (operands : List Operand) : Instr :=
  ⟨opcode, operands, 0, [], Nat.zero_le _⟩

/-- The instruction with one more memory access, after those it has. -/
def withAccess (i : Instr) (a : Access) : Instr :=
  { i with accesses := i.accesses ++ [a] }

/-- How many operands there are, definitions and uses together. -/
def numOperands (i : Instr) : Nat :=
  i.operands.length

/-- The operands that the instruction defines. -/
def defs (i : Instr) : List Operand :=
  i.operands.take i.numDefs

/-- The operands that the instruction reads. -/
def uses (i : Instr) : List Operand :=
  i.operands.drop i.numDefs

/-- The register operands in order, each with its slot. -/
def regOperands (i : Instr) : List (Nat × Reg) :=
  i.operands.zipIdx.filterMap fun (op, k) => op.reg?.map (k, ·)

/-- The registers of the operands in order, with repetitions. -/
def regs (i : Instr) : List Reg :=
  i.operands.filterMap Operand.reg?

/-- A register is among those of an instruction exactly if it is an operand of it. -/
theorem mem_regs {i : Instr} {r : Reg} : r ∈ i.regs ↔ .reg r ∈ i.operands := by
  simp only [regs, List.mem_filterMap, Operand.reg?_eq_some_iff, exists_eq_right]

/-- An access is uniform only as the single access of its instruction. -/
def uniformAccess (i : Instr) : Bool :=
  i.accesses = [.uniform]

/-! ## The written form -/

/-- The texts in a row, the first after `lead` and every later one after a comma. -/
def spread (lead : String) : List String → String
  | [] => ""
  | t :: ts => lead ++ t ++ spread ", " ts

/-- The written form: the definitions and an equals sign if there are any, the opcode, the uses, and
a word for each memory access. -/
def text (i : Instr) : String :=
  spread "" (i.defs.map Operand.text)
    ++ (if i.numDefs = 0 then "" else " = ")
    ++ i.opcode.name
    ++ spread " " (i.uses.map Operand.text)
    ++ i.accesses.foldl (fun written a => written ++ " :: " ++ a.text) ""

end Instr

end Lowering
