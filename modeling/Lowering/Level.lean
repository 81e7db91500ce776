/-!
# Lowering — levels of a log

How much an event matters, from what went wrong down to single steps.
-/

namespace Lowering

/-- The levels, most severe first. -/
inductive Level where
  | error
  | warn
  | info
  | debug
  | trace
deriving DecidableEq

/-- The written name of a level. -/
def Level.name : Level → String
  | error => "ERROR"
  | warn => "WARN"
  | info => "INFO"
  | debug => "DEBUG"
  | trace => "TRACE"

end Lowering
