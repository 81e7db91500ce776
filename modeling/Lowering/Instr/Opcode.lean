/-!
# Lowering — generic opcodes

The closed set of opcodes that instructions carry before a target has lowered them. Each has one
written name and no two share it (`Opcode.ofName?_name`).
-/

namespace Lowering

/-- The generic opcodes. Which of them the machine treats in a way of its own is said by their rules
and not here. -/
inductive Opcode where
  | copy
  | implicitDef
  | constant
  | floatConstant
  | add
  | sub
  | mul
  | and
  | or
  | xor
  | shl
  | compare
  | select
  | gep
  | load
  | store
  | intrinsic
deriving DecidableEq

namespace Opcode

/-- All opcodes, the list that written names are looked up in. -/
def all : List Opcode :=
  [copy, implicitDef, constant, floatConstant, add, sub, mul, and, or, xor, shl, compare, select,
    gep, load, store, intrinsic]

/-- The written name. -/
def name : Opcode → String
  | copy => "COPY"
  | implicitDef => "G_IMPLICIT_DEF"
  | constant => "G_CONSTANT"
  | floatConstant => "G_FCONSTANT"
  | add => "G_ADD"
  | sub => "G_SUB"
  | mul => "G_MUL"
  | and => "G_AND"
  | or => "G_OR"
  | xor => "G_XOR"
  | shl => "G_SHL"
  | compare => "G_ICMP"
  | select => "G_SELECT"
  | gep => "G_GEP"
  | load => "G_LOAD"
  | store => "G_STORE"
  | intrinsic => "G_INTRINSIC"

/-- The opcode of a written name, if there is one. -/
def ofName? (name : String) : Option Opcode :=
  all.find? fun op => op.name == name

/-- The name of an opcode is looked up as that opcode again, which is what reading back a written
instruction rests on. -/
theorem ofName?_name (op : Opcode) : ofName? op.name = some op := by
  cases op <;> decide

end Opcode

end Lowering
