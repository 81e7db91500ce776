import Lowering.Env
import Lowering.Routine.RegType

/-!
# Lowering — routines

A routine is a straight sequence of instructions with a table of register types. A type is declared
once: the table takes the same declaration again and refuses a different one. A routine is an
environment for its own instructions.
-/

namespace Lowering

/-- The declared types of registers. A register has at most one type, and the table does not say
where it was declared. -/
abbrev TypeTable := RegMap RegType

/-- The table after a declaration, nothing if the register has a different type already. -/
def TypeTable.declare? (types : TypeTable) (r : Reg) (ty : RegType) : Option TypeTable :=
  match types[r]? with
  | some declared => if declared = ty then some types else none
  | none => some (types.insert r ty)

/-- A straight sequence of instructions. There is no control flow, so the order in which
instructions stand is the order in which they are met. -/
structure Routine where
  instrs : List Instr
  types : TypeTable
deriving DecidableEq

namespace Routine

/-- The routine of an empty text. -/
def empty : Routine :=
  ⟨[], ∅⟩

/-- The routine with one more instruction at its end. -/
def push (f : Routine) (i : Instr) : Routine :=
  { f with instrs := f.instrs ++ [i] }

/-- The routine after the declaration of a type, nothing if the register has a different one. -/
def declare? (f : Routine) (r : Reg) (ty : RegType) : Option Routine :=
  (f.types.declare? r ty).map fun types => { f with types }

/-- The declared type of a register. -/
def typeOf (f : Routine) (r : Reg) : Option RegType :=
  f.types[r]?

/-- The registers that instructions use, ascending and once each. A register that is only declared
is not among them. -/
def regs (f : Routine) : List Reg :=
  ((f.instrs.flatMap Instr.regs).foldl (fun seen r => seen.insert r ()) (∅ : RegMap Unit)).keys

/-- The environment that a routine is for its own instructions. A register without a declared type
has no width and no class. -/
def env (f : Routine) : Env where
  width r := (f.typeOf r).map RegType.width
  classOf r := (f.typeOf r).bind RegType.class?
  uniform := Instr.uniformAccess

end Routine

end Lowering
