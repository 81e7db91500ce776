import Lowering.Level
import Lowering.Mapping
import Lowering.Selection.Mode

/-!
# Lowering — what bank selection tells of its work

Selection and the queries it makes leave a log of events. Each event has a level and a text, and
both are read off it only when the log is shown.
-/

namespace Lowering

/-- What can be told of a selection while it is made. An event holds the things that it is about and
not their text, so that nothing is formatted for a log that nobody reads. -/
inductive Event where
  /-- The setting names no mode and is passed over. -/
  | unknownMode (e : ModeError)
  /-- A register starts in the bank of its class. -/
  | constrained (r : Reg) (c : RegClass) (b : Bank)
  /-- The opcode has no rule of its own. -/
  | noRule (i : Instr)
  /-- A load is mapped to one bank as a whole. -/
  | load (i : Instr) (b : Bank)
  /-- An instruction got its mapping, at this price. -/
  | chosen (i : Instr) (m : InstrMapping) (total : Nat)
  /-- A register has to be copied into another bank. -/
  | repair (r : Reg) (source dest : Bank)
deriving DecidableEq

namespace Event

/-- How much an event matters. Only a setting that could not be understood is a warning; a choice is
for debugging, and the single steps that led to it are the trace. -/
def level : Event → Level
  | unknownMode _ => .warn
  | chosen .. => .debug
  | constrained .. | noRule _ | load .. | repair .. => .trace

/-- The wording of an event. -/
def text : Event → String
  | unknownMode e => e.message ++ ", using fast mode"
  | constrained r c b => r.text ++ " constrained to " ++ c.name ++ " (" ++ b.name ++ ")"
  | noRule i => i.text ++ ": no mapping rule, using fallback"
  | load i b => i.text ++ ": " ++ b.name ++ " load"
  | chosen i m total => i.text ++ ": " ++ m.text ++ " (total " ++ total.repr ++ ")"
  | repair r source dest => "repair " ++ r.text ++ ": " ++ source.name ++ " -> " ++ dest.name

end Event

end Lowering
