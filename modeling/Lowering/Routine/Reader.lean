import Lowering.Routine.Basic
import Lowering.Routine.ParseError
import Lowering.Text.Blank

/-!
# Lowering — reading along a line

A reader takes what it needs from the front of a line and declares the register types it meets. The
cursor is what a reader works on: the rest of the line, its line feed included, and the types
declared so far. Blanks before a token are passed over; the line feed is not one of them, so no
reader gets past the end of its line.

`many` repeats a reader for as long as it finds something. Each repetition has to consume part of
the line, and one that does not is a fault.
-/

namespace Lowering

/-- What is left of a line, and the types that its registers may have. -/
structure Cursor where
  rest : List Char
  types : TypeTable

/-- Reads from a line, or refuses it. What was taken before a refusal is lost: a refused line
declares nothing. -/
abbrev Reader := StateT Cursor (Except Refusal)

namespace Reader

variable {α : Type}

/-- Whether the character stands between tokens. -/
def isGap (c : Char) : Bool :=
  Text.isBlank c && c != '\n'

/-- The characters that names are made of. -/
def isNameChar (c : Char) : Bool :=
  c.isAlphanum || c == '_' || c == '.'

/-- Passes over the blanks before a token. -/
def skipGap : Reader Unit :=
  modify fun c => { c with rest := c.rest.dropWhile isGap }

/-- The next character, nothing at the end of the text. -/
def peek : Reader (Option Char) := do
  return (← get).rest.head?

/-- Whether the given text comes next, without taking it. -/
def looksAt (text : String) : Reader Bool := do
  return text.toList.isPrefixOf (← get).rest

/-- Takes the next `n` characters. -/
def drop (n : Nat) : Reader Unit :=
  modify fun c => { c with rest := c.rest.drop n }

/-- Takes the longest run of characters of one kind, which may be empty. -/
def takeRun (p : Char → Bool) : Reader (List Char) :=
  fun c => .ok (c.rest.takeWhile p, { c with rest := c.rest.dropWhile p })

/-! ## What the basic readers do to the cursor -/

/-- Two readers in a row: the second reads on where the first has ended, and a refusal of the first
is that of both. All symbolic execution of readers goes through this. -/
theorem bind_apply {β : Type} (x : Reader α) (f : α → Reader β) (c : Cursor) :
    (x >>= f) c =
      match x c with
      | .ok (a, c') => f a c'
      | .error e => .error e := by
  change (x c >>= fun (a, c') => f a c') = _
  cases x c <;> rfl

theorem pure_apply (a : α) (c : Cursor) : (pure a : Reader α) c = .ok (a, c) := rfl

theorem throw_apply (e : Refusal) (c : Cursor) : (throw e : Reader α) c = .error e := rfl

/-- Passing over blanks never fails, and it stops before a line feed. -/
theorem skipGap_apply (c : Cursor) :
    skipGap c = .ok ((), { c with rest := c.rest.dropWhile isGap }) := rfl

theorem peek_apply (c : Cursor) : peek c = .ok (c.rest.head?, c) := rfl

theorem looksAt_apply (text : String) (c : Cursor) :
    looksAt text c = .ok (text.toList.isPrefixOf c.rest, c) := rfl

/-- Dropping characters never fails, also if there are not enough of them. -/
theorem drop_apply (n : Nat) (c : Cursor) :
    drop n c = .ok ((), { c with rest := c.rest.drop n }) := rfl

/-- A run is split off at the first character of another kind. -/
theorem takeRun_apply (p : Char → Bool) (c : Cursor) :
    takeRun p c = .ok (c.rest.takeWhile p, { c with rest := c.rest.dropWhile p }) := rfl

/-! ## Tokens -/

/-- Whether nothing but blanks is left on the line. -/
def atLineEnd : Reader Bool := do
  skipGap
  let next ← peek
  return next == none || next == some '\n'

/-- Refuses a line with something left on it. -/
def lineEnd : Reader Unit := do
  if ← atLineEnd then
    return
  else
    throw (.expectedLineEnd (← peek))

/-- Takes the given text if it comes next behind blanks. The blanks are taken in any case. -/
def accept (text : String) : Reader Bool := do
  skipGap
  if ← looksAt text then
    drop text.length
    return true
  else
    return false

/-- Takes the given text, which has to come next. -/
def expect (text : String) : Reader Unit := do
  if ← accept text then
    return
  else
    throw (.expectedText text (← peek))

/-- Takes a name. There is no token for an empty name, so the character that stands in its place is
reported. -/
def identifier : Reader String := do
  skipGap
  match ← takeRun isNameChar with
  | [] => throw (.expectedIdentifier (← peek))
  | name => return String.ofList name

/-! ## Repetition -/

/-- Repeats a reader until it finds nothing. Each repetition has to leave less of the line than it
found, which is also why the recursion ends. -/
def many (step : Reader (Option α)) (c : Cursor) : Except Refusal (List α × Cursor) :=
  match step c with
  | .error e => .error e
  | .ok (none, c') => .ok ([], c')
  | .ok (some x, c') =>
    if c'.rest.length < c.rest.length then
      match many step c' with
      | .error e => .error e
      | .ok (xs, c'') => .ok (x :: xs, c'')
    else .error (.fault .stalled)
termination_by c.rest.length

/-- One item, then one more after every comma. A comma has to be followed by an item. -/
def commaList (item : Reader α) : Reader (List α) := do
  let first ← item
  let more ← many do
    if ← accept "," then some <$> item else return none
  return first :: more

/-- A contract that reading itself has to keep. -/
def keep (x : Except Fault α) : Reader α :=
  match x with
  | .ok a => pure a
  | .error f => throw (.fault f)

end Reader

end Lowering
