import Lowering.Routine.Reader
import Lowering.Text.Line

/-!
# Lowering — reading a routine

A routine is read line by line: a line holds one instruction or nothing, and what it declares holds
for the lines after it. An instruction is its definitions and an equals sign, if it has any, then
the opcode, the uses, and a word for each memory access. The first line that cannot be read ends
the reading.
-/

namespace Lowering

namespace Reader

/-! ## Operands -/

/-- Declares a type for a register, or refuses the line if the register has another type already. -/
def declare (r : Reg) (ty : RegType) : Reader Unit := fun c =>
  match c.types.declare? r ty with
  | some types => .ok ((), { c with types })
  | none => .error (.conflictingType ty r)

/-- The type of a register, if a single colon comes next. -/
def typeSuffix (r : Reg) : Reader Unit := do
  -- a double colon starts a memory access
  if (← looksAt ":") && !(← looksAt "::") then
    drop 1
    let name ← identifier
    match RegType.ofName? name with
    | some ty => declare r ty
    | none => throw (.unknownType name)
  else
    return

/-- A register, with or without a type. -/
def reg : Reader Reg := do
  expect "%"
  let digits ← takeRun Char.isDigit
  match Text.decimal32? digits with
  | some n =>
    typeSuffix ⟨n⟩
    return ⟨n⟩
  | none => throw (.invalidRegister (String.ofList digits))

/-- Whether a minus sign comes next, which is then taken. -/
def sign : Reader Bool := do
  if ← looksAt "-" then
    drop 1
    return true
  else
    return false

/-- The immediate of the given value, if it has 64 bits. -/
def immediate? (n : Int) : Option Int64 :=
  if Int64.minValue.toInt ≤ n ∧ n ≤ Int64.maxValue.toInt then some (Int64.ofInt n) else none

/-- The negation of an immediate, a fault where it has none in 64 bits. Its argument is never the
least immediate when it is read from a text, so the fault stays out of reach; that is a theorem and
not a check. -/
def negated (v : Int64) : Except Fault Int64 :=
  if v = Int64.minValue then .error .negOverflow else .ok (-v)

/-- An immediate. A hexadecimal numeral is read first and then negated; a decimal numeral is read
together with its sign. -/
def immediate : Reader Int64 := do
  let negative ← sign
  let digits ← takeRun Char.isAlphanum
  let refusal := Refusal.invalidImmediate
    (String.ofList (if negative then '-' :: digits else digits))
  match "0x".toList.isPrefixOf? digits with
  | some hex =>
    -- the magnitude itself has to fit, so the least immediate has no hexadecimal form
    match (Text.hexadecimal? hex).bind fun n => immediate? n with
    | some v => if negative then keep (negated v) else return v
    | none => throw refusal
  | none =>
    match (Text.decimal? digits).bind fun n => immediate? (if negative then -n else n) with
    | some v => return v
    | none => throw refusal

/-- An operand, told apart by its first character. Any other character than those that begin one is
refused as it is found. -/
def operand : Reader Operand := do
  skipGap
  match ← peek with
  | some c =>
    if c = '%' then .reg <$> reg
    else if c = '@' then do
      drop 1
      .symbol <$> identifier
    else if c = '-' || c.isDigit then .imm <$> immediate
    else throw (.expectedOperand (some c))
  | none => throw (.expectedOperand none)

/-! ## Instructions -/

/-- The word for a memory access, if a double colon comes next. -/
def access? : Reader (Option Access) := do
  if ← accept "::" then
    let word ← identifier
    match Access.ofText? word with
    | some a => return some a
    | none => throw (.unknownAccess word)
  else
    return none

/-- Refuses an instruction whose operand in the given slot is not a register. -/
def checkRegister (i : Instr) (k : Nat) : Reader Unit := do
  if i.numOperands ≤ k then
    throw (.operandNotRegister i.opcode k)
  else
    let op ← keep (i.operandAt k)
    if op.isReg then return else throw (.operandNotRegister i.opcode k)

/-- Refuses an instruction without the given number of definitions and without registers in the
given slots. -/
def checkShape (i : Instr) (numDefs : Nat) (regSlots : List Nat) : Reader Unit :=
  if i.numDefs = numDefs then regSlots.forM (checkRegister i)
  else throw (.defCount i.opcode numDefs i.numDefs)

/-- Refuses an instruction that its opcode's mapping rule could not place. -/
def checkMappable (i : Instr) : Reader Unit :=
  match i.opcode with
  | .constant => checkShape i 1 [0]
  | .load => checkShape i 1 [0, 1]
  | .store => checkShape i 0 [0, 1]
  | _ => return

/-- The definitions before the equals sign; none if no register comes next. -/
def defs : Reader (List Operand) := do
  skipGap
  if ← looksAt "%" then
    let rs ← commaList reg
    expect "="
    return rs.map .reg
  else
    return []

/-- The operands after the opcode; none if the line ends or memory accesses come next. -/
def uses : Reader (List Operand) := do
  if (← atLineEnd) || (← looksAt "::") then return []
  else commaList operand

/-- An opcode by its written name. -/
def opcode : Reader Opcode := do
  let name ← identifier
  match Opcode.ofName? name with
  | some op => return op
  | none => throw (.unknownOpcode name)

/-- An instruction. The definitions and the uses are put together to one operand list, and what the
mapping rule of the opcode takes for granted is checked when all of it is there. -/
def instr : Reader Instr := do
  let defs ← defs
  let op ← opcode
  let uses ← uses
  let i ← keep ((Instr.ofOperands op (defs ++ uses)).withDefs defs.length)
  let accesses ← many access?
  let i := accesses.foldl Instr.withAccess i
  checkMappable i
  return i

/-- What a line holds. -/
def line : Reader (Option Instr) := do
  if ← atLineEnd then
    return none
  else
    let i ← instr
    lineEnd
    return some i

end Reader

/-! ## Routines -/

namespace Routine

/-- The routine with what one more line holds. Comments and blanks at the end of the line are
removed before the readers see it. -/
def readLine (f : Routine) (line : List Char) : Except Refusal Routine := do
  let (i?, c) ← Reader.line.run ⟨Text.content line, f.types⟩
  return ⟨f.instrs ++ i?.toList, c.types⟩

/-- The routine with what further lines hold, the first of them having number `n`. The first line
that is refused ends the reading with its number. -/
def readLines (f : Routine) (n : Nat) : List (List Char) → Except ParseError Routine
  | [] => .ok f
  | line :: rest =>
    match f.readLine line with
    | .ok f => f.readLines (n + 1) rest
    | .error cause => .error ⟨n, cause⟩

/-- The routine that a text describes. -/
def parse (text : String) : Except ParseError Routine :=
  empty.readLines 1 (Text.lines text.toList)

end Routine

end Lowering
