import Lowering.Fixup.Basic

/-!
# Lowering — diagnostics

A diagnostic says of a fixup that its value does not fit the field. Diagnostics are collected while
patching goes on.
-/

namespace Lowering

/-- The report of a value that is out of range. Patching goes on behind it, so one batch may be
reported in many places. -/
structure Diagnostic where
  loc : SourceLoc
  /-- The name of the fixup's kind. -/
  kind : String
  value : Int64
  /-- How many bits the value would have to fit, as a signed number. -/
  width : Nat
deriving DecidableEq

/-- The wording of a diagnostic, without its place. -/
def Diagnostic.message (d : Diagnostic) : String :=
  "fixup out of range: " ++ d.value.toInt.repr ++ " does not fit in " ++ d.width.repr
    ++ " signed bits (" ++ d.kind ++ ")"

end Lowering
