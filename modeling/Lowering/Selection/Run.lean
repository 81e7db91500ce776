import Lowering.Selection.Basic
import Lowering.Target

/-!
# Lowering — selecting banks

Selection goes over the stream once. Every register that the environment constrains to a class
starts in the bank of that class; any other register takes the bank that is demanded where it is
first met. A demand for another bank than the one where the register lives is met by a copy. The
price of a mapping is its own cost and the cost of the copies it would need as the banks stand;
the fast mode pays the price of the target's own mapping, the greedy mode takes the cheapest of
all mappings, the earliest of those that cost the same.
-/

namespace Lowering.Selection

/-! ## Constraints -/

/-- The banks of the registers that are constrained to a class, over the whole stream. -/
def seed (t : Target) (env : Env) (instrs : List Instr) : Traced (RegMap Bank) :=
  (instrs.flatMap Instr.regs).foldlM
    (fun banks r =>
      match env.classOf r with
      | some c => do
        let b := t.bankOfClass c
        Traced.emit (.constrained r c b)
        pure (banks.insert r b)
      | none => pure banks)
    ∅

/-! ## Prices -/

/-- What it costs to copy the registers of some demands out of the banks where they live. A register
that lives nowhere yet costs nothing. -/
def repairCost (t : Target) (banks : RegMap Bank) (demands : List Demand) : Except Fault Nat :=
  demands.foldlM
    (fun paid d =>
      match banks[d.reg]? with
      | some b => do Cost.add paid (← t.copyCost b d.value.bank d.value.width)
      | none => pure paid)
    0

/-- A candidate with its price: its own cost and the cost of the copies that it would need. -/
structure Priced where
  mapping : InstrMapping
  total : Nat

/-- The price of a mapping of an instruction as the banks stand. Both the cost of the copies and the
sum may overflow. -/
def price (t : Target) (banks : RegMap Bank) (i : Instr) (m : InstrMapping) :
    Except Fault Priced := do
  let repairs ← repairCost t banks (m.demands i)
  let total ← Cost.add m.cost repairs
  pure ⟨m, total⟩

/-- The cheaper of the best candidate so far and the next; the earlier one if they cost the same. -/
def cheaper (t : Target) (banks : RegMap Bank) (i : Instr) (best : Priced) (m : InstrMapping) :
    Except Fault Priced := do
  let next ← price t banks i m
  pure (if next.total < best.total then next else best)

/-- The cheapest of a candidate and some mappings after it, the earliest of those that cost the
same. -/
def cheapest (t : Target) (banks : RegMap Bank) (i : Instr) (first : Priced)
    (ms : List InstrMapping) : Except Fault Priced :=
  ms.foldlM (cheaper t banks i) first

/-- The candidate chosen for an instruction as the banks stand. -/
def choose (t : Target) (mode : Mode) (env : Env) (banks : RegMap Bank) (i : Instr) :
    Traced Priced := do
  -- the alternatives are asked for first; a fault in them comes before one in the mapping itself
  let alternatives ← match mode with
    | .fast => pure []
    | .greedy => t.alternatives env i
  let m ← t.mapping env i
  let first ← price t banks i m
  let best ← cheapest t banks i first alternatives
  Traced.emit (.chosen i best.mapping best.total)
  pure best

/-! ## Repairs -/

/-- Meets the demands on instruction number `k` in turn: a register that lives nowhere settles in
the bank demanded, and one that lives elsewhere is copied. A register never leaves the bank where it
has settled. -/
def settle (t : Target) (k : Nat) (banks : RegMap Bank) :
    List Demand → Traced (List Repair × RegMap Bank)
  | [] => pure ([], banks)
  | d :: ds =>
    match banks[d.reg]? with
    | none => settle t k (banks.insert d.reg d.value.bank) ds
    | some b =>
      if b = d.value.bank then settle t k banks ds
      else do
        -- the register stays where it lives: only the operand reads the copy
        let cost ← t.copyCost b d.value.bank d.value.width
        Traced.emit (.repair d.reg b d.value.bank)
        let (repairs, banks) ← settle t k banks ds
        pure (⟨k, d.operand, d.reg, b, d.value.bank, d.value.width, cost⟩ :: repairs, banks)

/-! ## The stream -/

/-- Selection over a stream whose first instruction has number `k`, from the banks as they stand. An
instruction is chosen for and settled before the next one is looked at. -/
def walk (t : Target) (mode : Mode) (env : Env) (k : Nat) (banks : RegMap Bank) :
    List Instr → Traced Selection
  | [] => pure ⟨[], [], banks⟩
  | i :: is => do
    let chosen ← choose t mode env banks i
    let (repairs, banks) ← settle t k banks (chosen.mapping.demands i)
    let later ← walk t mode env (k + 1) banks is
    pure ⟨⟨k, chosen.mapping, chosen.total⟩ :: later.choices, repairs ++ later.repairs, later.banks⟩

/-- Selects banks for a stream of instructions. The classes of all registers of the stream are
looked up before the first instruction is chosen for, so a constraint holds from the beginning on
also where its register is met late. -/
def run (t : Target) (mode : Mode) (env : Env) (instrs : List Instr) : Traced Selection := do
  let banks ← seed t env instrs
  walk t mode env 0 banks instrs

end Lowering.Selection
