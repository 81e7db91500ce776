import Lowering.Traced

/-!
# Lowering — targets

A target says how the operands of an instruction may be placed in banks: one mapping that it would
pick on its own, and for some instructions alternatives to it. It also says which bank stores a
register class, and what a copy between banks costs. Without a word from the target there are no
alternatives, a copy to another bank costs one, and a copy within a bank costs nothing because it
is coalesced away.
-/

namespace Lowering

/-- A target, by what it answers. The mappings may be logged about; the costs may overflow. Nothing
is assumed of how a target makes its answers, so what is proved of selection holds for any
target. -/
structure Target where
  /-- The mapping that the target would pick on its own. -/
  mapping : Env → Instr → Traced InstrMapping
  /-- Further mappings, for instructions that the machine can do in more than one way. -/
  alternatives : Env → Instr → Traced (List InstrMapping) := fun _ _ => pure []
  bankOfClass : RegClass → Bank
  /-- What a copy between two banks costs, for a value of the given width. -/
  copyCost : Bank → Bank → UInt32 → Except Fault Nat :=
    fun source dest _ => .ok (if source = dest then 0 else 1)

/-- What a target offers for an instruction in some mode: one mapping, or several to choose from. -/
inductive Assignment where
  | single (m : InstrMapping)
  | alternatives (ms : List InstrMapping)
deriving DecidableEq

/-- The mappings that are offered. -/
def Assignment.candidates : Assignment → List InstrMapping
  | single m => [m]
  | alternatives ms => ms

namespace Target

/-- The target's own mapping, then every alternative. -/
def possibleMappings (t : Target) (env : Env) (i : Instr) : Traced (List InstrMapping) := do
  let m ← t.mapping env i
  let ms ← t.alternatives env i
  pure (m :: ms)

/-- The fast mode is offered the target's own mapping; the greedy mode is offered the alternatives,
or the target's own mapping if there are none. -/
def assign (t : Target) (env : Env) (i : Instr) : Mode → Traced Assignment
  | .fast => .single <$> t.mapping env i
  | .greedy => do
    match ← t.alternatives env i with
    | [] => .single <$> t.mapping env i
    | ms => pure (.alternatives ms)

end Target

end Lowering
