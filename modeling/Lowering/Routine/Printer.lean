import Lowering.Routine.Basic

/-!
# Lowering — writing a routine

A routine is written with one instruction on each line. The type of a register is written once,
after the first operand of the whole routine that holds it.
-/

namespace Lowering

/-- The written form of an instruction whose operands have the given texts. The texts may carry
types; where they begin and end is up to the caller. -/
def Instr.render (i : Instr) (operands : List String) : String :=
  let defs := operands.take i.numDefs
  let uses := operands.drop i.numDefs
  (if defs.isEmpty then "" else ", ".intercalate defs ++ " = ")
    ++ i.opcode.name
    ++ (if uses.isEmpty then "" else " " ++ ", ".intercalate uses)
    ++ String.join (i.accesses.map fun a => " :: " ++ a.text)

namespace Routine

/-- The text of an operand and the types that are still to be written after it, out of those still
to be written before it. A type is crossed off when it is written, so a register is written with it
only once. -/
def annotate (pending : TypeTable) : Operand → String × TypeTable
  | .reg r =>
    match pending[r]? with
    | some ty => (r.text ++ ":" ++ ty.text, pending.erase r)
    | none => (r.text, pending)
  | op => (op.text, pending)

/-- The texts of a row of operands. -/
def annotateAll (pending : TypeTable) : List Operand → List String × TypeTable
  | [] => ([], pending)
  | op :: ops =>
    let (text, pending) := annotate pending op
    let (texts, pending) := annotateAll pending ops
    (text :: texts, pending)

/-- The lines of a row of instructions, with the types that are still to be written when the first
of them begins. -/
def printFrom (pending : TypeTable) : List Instr → List String
  | [] => []
  | i :: is =>
    let (texts, pending) := annotateAll pending i.operands
    (i.render texts ++ "\n") :: printFrom pending is

/-- The written form of the routine. -/
def print (f : Routine) : String :=
  String.join (printFrom f.types f.instrs)

end Routine

end Lowering
