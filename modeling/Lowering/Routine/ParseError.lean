import Lowering.Routine.RegType
import Lowering.Text.CharLiteral

/-!
# Lowering — why a text is refused

A text that is no routine is refused with the number of the first line at fault, counted from one,
and the cause. `Refusal.message` is the wording of a cause.
-/

namespace Lowering

/-- Why a line is not one of a routine. The character that was found in the place of what was
expected is part of the cause, and nothing at the end of the text. -/
inductive Refusal where
  | expectedLineEnd (found : Option Char)
  | expectedText (text : String) (found : Option Char)
  | expectedIdentifier (found : Option Char)
  | expectedOperand (found : Option Char)
  | unknownOpcode (name : String)
  | unknownAccess (name : String)
  | unknownType (name : String)
  /-- The digits are no 32-bit number. -/
  | invalidRegister (digits : String)
  /-- The text is no 64-bit immediate. -/
  | invalidImmediate (text : String)
  /-- The register has another type already. -/
  | conflictingType (ty : RegType) (r : Reg)
  /-- The opcode needs another number of definitions. -/
  | defCount (op : Opcode) (expected found : Nat)
  /-- The opcode needs a register in this slot. -/
  | operandNotRegister (op : Opcode) (operand : Nat)
  /-- Reading broke a contract of its own. -/
  | fault (f : Fault)
deriving DecidableEq

/-- The wording of a cause. -/
def Refusal.message : Refusal → String
  | expectedLineEnd found => "expected end of line but found " ++ Text.foundText found
  | expectedText text found => "expected '" ++ text ++ "' but found " ++ Text.foundText found
  | expectedIdentifier found => "expected identifier but found " ++ Text.foundText found
  | expectedOperand found => "expected operand but found " ++ Text.foundText found
  | unknownOpcode name => "unknown opcode '" ++ name ++ "'"
  | unknownAccess name => "unknown memory operand '" ++ name ++ "'"
  | unknownType name => "unknown register type '" ++ name ++ "'"
  | invalidRegister digits => "invalid register number '" ++ digits ++ "'"
  | invalidImmediate text => "invalid immediate '" ++ text ++ "'"
  | conflictingType ty r => "conflicting type '" ++ ty.text ++ "' for " ++ r.text
  | defCount op expected found =>
    op.name ++ " expects " ++ expected.repr ++ " def(s), found " ++ found.repr
  | operandNotRegister op operand =>
    op.name ++ " operand " ++ operand.repr ++ " must be a register"
  | fault f => f.message

/-- A cause with the number of the line that it was found on. A text has one error at most, since
the reading ends with it. -/
structure ParseError where
  line : Nat
  cause : Refusal
deriving DecidableEq

/-- The wording of an error. -/
def ParseError.message (e : ParseError) : String :=
  "line " ++ e.line.repr ++ ": " ++ e.cause.message

end Lowering
