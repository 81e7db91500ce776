import Lowering.Routine.Parser
import Lowering.Text.Position

/-!
# Lowering — scanning a text

The reading of a routine with one cursor that goes along the whole text. The cursor is a byte
position with the number of the line that it is on; nothing is taken off the text, and every look
ahead and every token is a slice of it. Comments are passed over together with the blanks.

A scan that cannot go on halts. It refuses the text, or it has broken a contract of its own: a slice
has to begin and end between characters, line numbers have 32 bits, and what a loop does once has to
move the cursor on.
-/

namespace Lowering

/-- Where the cursor of a scan is. -/
structure Scan.Place where
  /-- The bytes of the text before the cursor. -/
  pos : Nat
  line : Nat
  /-- What has been read before the cursor. -/
  found : Routine

/-- Why a scan ends before the text does. -/
inductive Halt where
  | refused (e : ParseError)
  /-- A slice between these positions was asked for. -/
  | badSlice (start stop : Nat)
  /-- There are more lines than 32-bit numbers. -/
  | lineOverflow
  /-- A contract of the instruction side was broken, or a loop does not move on. -/
  | broken (f : Fault)
deriving DecidableEq

abbrev Scan := StateT Scan.Place (Except Halt)

namespace Scan

variable {α : Type}

/-- Refuses the text at the current line. -/
def refuse (cause : Refusal) : Scan α :=
  fun p => .error (.refused ⟨p.line, cause⟩)

/-- A contract that scanning itself has to keep. -/
def keep (x : Except Fault α) : Scan α :=
  match x with
  | .ok a => pure a
  | .error f => throw (.broken f)

/-- Counts one more line, as long as its number fits 32 bits. -/
def nextLine : Scan Unit := fun p =>
  if p.line + 1 < UInt32.size then .ok ((), { p with line := p.line + 1 })
  else .error .lineOverflow

/-- Declares a type for a register. -/
def declare (r : Reg) (ty : RegType) : Scan Unit := fun p =>
  match p.found.declare? r ty with
  | some found => .ok ((), { p with found })
  | none => refuse (.conflictingType ty r) p

variable (text : List Char)

/-! ## The cursor -/

/-- The text from the cursor on. -/
def ahead : Scan (List Char) := fun p =>
  match Text.splitAt? text p.pos with
  | some (_, rest) => .ok (rest, p)
  | none => .error (.badSlice p.pos (Text.byteSize text))

/-- The text from a position to the cursor. Both have to lie between characters of the text, which
only a proof about the whole scan can say of them. -/
def slice (start : Nat) : Scan (List Char) := fun p =>
  match Text.slice? text start p.pos with
  | some cs => .ok (cs, p)
  | none => .error (.badSlice start p.pos)

/-- Whether the cursor is behind the last character. -/
def atEnd : Scan Bool := do
  return decide (Text.byteSize text ≤ (← get).pos)

/-- The next character, nothing at the end of the text. -/
def current : Scan (Option Char) := do
  return (← ahead text).head?

/-- Whether the given word comes next. -/
def looksAt (word : String) : Scan Bool := do
  return word.toList.isPrefixOf (← ahead text)

/-- Moves the cursor behind the next character. A line feed is counted here and nowhere else. -/
def advance : Scan Unit := do
  match ← current text with
  | some c =>
    if c = '\n' then nextLine else pure ()
    modify fun p => { p with pos := p.pos + c.utf8Size }
  | none => return

/-- Repeats a step until it finds nothing. -/
def loop (step : Scan (Option α)) (p : Place) : Except Halt (List α × Place) :=
  match step p with
  | .error h => .error h
  | .ok (none, p') => .ok ([], p')
  | .ok (some x, p') =>
    if p.pos < p'.pos ∧ p'.pos ≤ Text.byteSize text then
      match loop step p' with
      | .error h => .error h
      | .ok (xs, p'') => .ok (x :: xs, p'')
    else .error (.broken .stalled)
termination_by Text.byteSize text - p.pos

/-! ## Tokens -/

/-- Passes over one character of a kind. -/
def pass (p : Char → Bool) : Scan (Option Unit) := do
  match ← current text with
  | some c =>
    if p c then
      advance text
      return some ()
    else
      return none
  | none => return none

/-- Passes over the longest run of characters of one kind. -/
def passRun (p : Char → Bool) : Scan Unit :=
  discard (loop text (pass text p) : Scan (List Unit))

/-- Passes over one blank or over a comment, which goes up to the end of its line. A line feed is one
of the blanks only if asked for. -/
def blank (feeds : Bool) : Scan (Option Unit) := do
  match ← current text with
  | some c =>
    if c = ';' then
      passRun text (· != '\n')
      return some ()
    else if Text.isBlank c && (feeds || c != '\n') then
      advance text
      return some ()
    else
      return none
  | none => return none

/-- Passes over blanks and comments, with line feeds only if asked for. -/
def skipBlanks (feeds : Bool) : Scan Unit :=
  discard (loop text (blank text feeds) : Scan (List Unit))

/-- Takes the longest run of characters of one kind, which may be empty. -/
def takeRun (p : Char → Bool) : Scan (List Char) := do
  let start := (← get).pos
  passRun text p
  slice text start

/-- Whether nothing but blanks and a comment is left on the line. -/
def atLineEnd : Scan Bool := do
  skipBlanks text false
  let next ← current text
  return next == none || next == some '\n'

/-- Refuses a line with something left on it. -/
def lineEnd : Scan Unit := do
  if ← atLineEnd text then
    return
  else
    refuse (.expectedLineEnd (← current text))

/-- Takes the given word if it comes next. -/
def accept (word : String) : Scan Bool := do
  skipBlanks text false
  if ← looksAt text word then
    word.toList.forM fun _ => advance text
    return true
  else
    return false

/-- Passes over the given word, which has to come next. -/
def expect (word : String) : Scan Unit := do
  if ← accept text word then
    return
  else
    refuse (.expectedText word (← current text))

/-- Takes a name, which may not be empty. -/
def identifier : Scan String := do
  skipBlanks text false
  match ← takeRun text Reader.isNameChar with
  | [] => refuse (.expectedIdentifier (← current text))
  | name => return String.ofList name

/-- One item, then one more after every comma. -/
def commaList (item : Scan α) : Scan (List α) := do
  let first ← item
  let more ← loop text do
    if ← accept text "," then some <$> item else return none
  return first :: more

/-! ## Operands -/

/-- The type of a register, if a single colon comes next. -/
def typeSuffix (r : Reg) : Scan Unit := do
  if (← current text) == some ':' && !(← looksAt text "::") then
    advance text
    let name ← identifier text
    match RegType.ofName? name with
    | some ty => declare r ty
    | none => refuse (.unknownType name)
  else
    return

/-- A register, with or without a type. -/
def reg : Scan Reg := do
  expect text "%"
  let digits ← takeRun text Char.isDigit
  match Text.decimal32? digits with
  | some n =>
    typeSuffix text ⟨n⟩
    return ⟨n⟩
  | none => refuse (.invalidRegister (String.ofList digits))

/-- Passes over a minus sign if one comes next. -/
def sign : Scan Unit := do
  if (← current text) == some '-' then advance text else return

/-- An immediate, which is negative if the whole literal begins with a minus sign. -/
def immediate : Scan Int64 := do
  let start := (← get).pos
  sign text
  let digits ← takeRun text Char.isAlphanum
  let literal ← slice text start
  let negative := literal.head? == some '-'
  let refusal := Refusal.invalidImmediate (String.ofList literal)
  match "0x".toList.isPrefixOf? digits with
  | some hex =>
    match (Text.hexadecimal? hex).bind fun n => Reader.immediate? n with
    | some v => if negative then keep (Reader.negated v) else return v
    | none => refuse refusal
  | none =>
    match (Text.decimal? digits).bind fun n => Reader.immediate? (if negative then -n else n) with
    | some v => return v
    | none => refuse refusal

/-- An operand, told apart by its first character. -/
def operand : Scan Operand := do
  skipBlanks text false
  match ← current text with
  | some c =>
    if c = '%' then .reg <$> reg text
    else if c = '@' then do
      advance text
      .symbol <$> identifier text
    else if c = '-' || c.isDigit then .imm <$> immediate text
    else refuse (.expectedOperand (some c))
  | none => refuse (.expectedOperand none)

/-! ## Instructions -/

/-- The word for a memory access, if a double colon comes next. -/
def access? : Scan (Option Access) := do
  if ← accept text "::" then
    let word ← identifier text
    match Access.ofText? word with
    | some a => return some a
    | none => refuse (.unknownAccess word)
  else
    return none

/-- Refuses an instruction whose operand in the given slot is not a register. -/
def checkRegister (i : Instr) (k : Nat) : Scan Unit := do
  if i.numOperands ≤ k then
    refuse (.operandNotRegister i.opcode k)
  else
    let op ← keep (i.operandAt k)
    if op.isReg then return else refuse (.operandNotRegister i.opcode k)

/-- Refuses an instruction without the given number of definitions and without registers in the
given slots. -/
def checkShape (i : Instr) (numDefs : Nat) (regSlots : List Nat) : Scan Unit :=
  if i.numDefs = numDefs then regSlots.forM (checkRegister i)
  else refuse (.defCount i.opcode numDefs i.numDefs)

/-- Refuses an instruction that its opcode's mapping rule could not place. -/
def checkMappable (i : Instr) : Scan Unit :=
  match i.opcode with
  | .constant => checkShape i 1 [0]
  | .load => checkShape i 1 [0, 1]
  | .store => checkShape i 0 [0, 1]
  | _ => return

/-- The definitions before the equals sign; none if no register comes next. -/
def defs : Scan (List Operand) := do
  skipBlanks text false
  if (← current text) == some '%' then
    let rs ← commaList text (reg text)
    expect text "="
    return rs.map .reg
  else
    return []

/-- An opcode by its written name. -/
def opcode : Scan Opcode := do
  let name ← identifier text
  match Opcode.ofName? name with
  | some op => return op
  | none => refuse (.unknownOpcode name)

/-- The operands after the opcode; none if the line ends or memory accesses come next. -/
def uses : Scan (List Operand) := do
  if (← atLineEnd text) || (← looksAt text "::") then return []
  else commaList text (operand text)

/-- An instruction, from its definitions to its memory accesses. What the mapping rule of the opcode
takes for granted is checked at the end. -/
def instr : Scan Instr := do
  let defs ← defs text
  let op ← opcode text
  let uses ← uses text
  let i ← keep ((Instr.ofOperands op (defs ++ uses)).withDefs defs.length)
  let accesses ← loop text (access? text)
  let i := accesses.foldl Instr.withAccess i
  checkMappable i
  return i

/-- An instruction and nothing behind it on its line. -/
def statement : Scan Instr := do
  let i ← instr text
  lineEnd text
  return i

/-- Adds the next instruction to what is found, if there is one. Lines that hold nothing are passed
over on the way to it. -/
def next : Scan (Option Unit) := do
  skipBlanks text true
  if ← atEnd text then
    return none
  else
    let i ← statement text
    modify fun p => { p with found := p.found.push i }
    return some ()

end Scan

/-- The routine that a text describes, found by going along the text once. -/
def Routine.scan (text : String) : Except Halt Routine :=
  match Scan.loop text.toList (Scan.next text.toList) ⟨0, 1, empty⟩ with
  | .ok (_, p) => .ok p.found
  | .error h => .error h

end Lowering
