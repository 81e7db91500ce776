import Lowering.Text.Blank

/-!
# Lowering — selection modes

How hard bank selection looks: the fast mode takes what the target would pick, the greedy mode
weighs that against every alternative. A mode is read from a text without regard to the blanks
around it or to the case of its ASCII letters.
-/

namespace Lowering

/-- The two modes. Greedy is not optimal: it looks at one instruction at a time and never takes a
choice back. -/
inductive Mode where
  | fast
  | greedy
deriving DecidableEq

/-- A text that names no mode. -/
structure ModeError where
  text : String
deriving DecidableEq

/-- The wording shows the text as it was given. -/
def ModeError.message (e : ModeError) : String :=
  "unknown register bank selection mode '" ++ e.text ++ "' (expected 'fast' or 'greedy')"

namespace Mode

/-- The mode where nothing asks for another. -/
def default : Mode := .fast

/-- The written name. -/
def name : Mode → String
  | fast => "fast"
  | greedy => "greedy"

/-- The mode that a text names. Blanks around the word are those of the whole of Unicode, but only
ASCII letters lose their case. A text that names no mode is kept for the message as it was given. -/
def ofText (text : String) : Except ModeError Mode :=
  let word := (Text.trim text.toList).map Char.toLower
  if word = fast.name.toList then .ok fast
  else if word = greedy.name.toList then .ok greedy
  else .error ⟨text⟩

end Mode

end Lowering
