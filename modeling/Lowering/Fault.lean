import Lowering.Instr.Basic

/-!
# Lowering — broken contracts

A fault says which contract of the instruction and bank side a caller broke. It is distinct from
a refusal of bad input, which has a type of its own where the input is read. `Fault.message` is
the wording. Costs are 32-bit quantities, and `Cost.add` is the one place where they are summed.
-/

namespace Lowering

/-- Which contract was broken. No fault stands for bad input: a caller that keeps the contracts
never meets one, apart from a sum of costs that grows too large. -/
inductive Fault where
  /-- A width was asked for a register that the environment does not know. -/
  | unresolvedWidth (r : Reg)
  /-- An operand that has to be a register holds something else. -/
  | notRegister (operand : Nat) (i : Instr)
  /-- An operand past the last was asked for. -/
  | operandMissing (operand count : Nat)
  /-- A value mapping was set past the last operand. -/
  | outsideMapping (operand count : Nat)
  /-- An operand map does not have one entry for each operand. -/
  | uncoveredOperands (mapped expected : Nat)
  /-- More operands were marked as definitions than there are. -/
  | excessDefs (defs count : Nat)
  /-- There is no register bank of this number. -/
  | invalidBank (id : Nat)
  /-- A sum left the 32 bits of a cost. -/
  | addOverflow
  /-- The negation of an immediate left its 64 bits. -/
  | negOverflow
  /-- A repeated reading step consumed nothing. -/
  | stalled
deriving DecidableEq

namespace Fault

/-- The wording of a fault. -/
def message : Fault → String
  | unresolvedWidth r => "register " ++ r.text ++ " has no resolvable width in this environment"
  | notRegister operand i => "operand " ++ operand.repr ++ " of '" ++ i.text ++ "' must be a register"
  | operandMissing operand count =>
    "index out of bounds: the len is " ++ count.repr ++ " but the index is " ++ operand.repr
  | outsideMapping operand count =>
    "operand " ++ operand.repr ++ " is outside a " ++ count.repr ++ "-operand mapping"
  | uncoveredOperands mapped expected =>
    "assertion `left == right` failed: operands mapping must cover every operand\n  left: "
      ++ mapped.repr ++ "\n right: " ++ expected.repr
  | excessDefs defs count =>
    defs.repr ++ " defs requested for an instruction with " ++ count.repr ++ " operands"
  | invalidBank id => "invalid register bank id " ++ id.repr
  | addOverflow => "attempt to add with overflow"
  | negOverflow => "attempt to negate with overflow"
  | stalled => "a repeated reading step consumed nothing"

/-- A sequence succeeds exactly if both of its parts do. Proofs about a function that may fail take
it apart with this, one step at a time. -/
theorem bind_eq_ok {α β : Type} {x : Except Fault α} {f : α → Except Fault β} {b : β} :
    x >>= f = .ok b ↔ ∃ a, x = .ok a ∧ f a = .ok b := by
  cases x with
  | ok a => exact ⟨fun h => ⟨a, rfl, h⟩, fun ⟨_, ha, h⟩ => by cases ha; exact h⟩
  | error e => exact ⟨nofun, fun ⟨_, ha, _⟩ => nomatch ha⟩

/-- A sequence fails where one of its parts does: either the first one already, or the one that goes
on from its result. This and `bind_eq_ok` are how computations that can fail are taken apart, so
that none has to be unfolded for it. -/
theorem bind_eq_error {α β : Type} {x : Except Fault α} {f : α → Except Fault β} {e : Fault} :
    x >>= f = .error e ↔ x = .error e ∨ ∃ a, x = .ok a ∧ f a = .error e := by
  cases x with
  | ok a =>
    constructor
    · exact fun h => .inr ⟨a, rfl, h⟩
    · rintro (h | ⟨_, ha, h⟩)
      · cases h
      · cases ha
        exact h
  | error e' =>
    constructor
    · intro h
      cases h
      exact .inl rfl
    · rintro (h | ⟨_, ha, _⟩)
      · cases h
        rfl
      · cases ha

/-- A fold that fails does so in one of its steps. Induction on the list; the state in which the
step fails is whatever the steps before it have made. -/
theorem exists_error_of_foldlM {α β : Type} {f : β → α → Except Fault β} {b : β} {as : List α}
    {e : Fault} (h : as.foldlM f b = .error e) : ∃ b', ∃ a ∈ as, f b' a = .error e := by
  induction as generalizing b with
  | nil => cases h
  | cons a as ih =>
    rw [List.foldlM_cons] at h
    obtain hstep | ⟨next, _, hrest⟩ := bind_eq_error.1 h
    · exact ⟨b, a, List.mem_cons_self, hstep⟩
    · obtain ⟨b', a', ha', hlater⟩ := ih hrest
      exact ⟨b', a', List.mem_cons_of_mem a ha', hlater⟩

/-- If every step that succeeds has the result that a function gives, so have all in a row.
Induction on the row. -/
theorem mapM_eq_ok {α β : Type} {f : α → Except Fault β} {g : α → β}
    (hf : ∀ a b, f a = .ok b → b = g a) {as : List α} {bs : List β}
    (h : as.mapM f = .ok bs) : bs = as.map g := by
  induction as generalizing bs with
  | nil =>
    cases h
    rfl
  | cons a as ih =>
    rw [List.mapM_cons] at h
    obtain ⟨b, hb, h⟩ := bind_eq_ok.1 h
    obtain ⟨bs, hbs, h⟩ := bind_eq_ok.1 h
    cases h
    rw [hf a b hb, ih hbs, List.map_cons]

/-- A row of steps succeeds exactly if each of them does. No step sees what another has returned,
which is what sets a row apart from a fold. -/
theorem mapM_answers_iff {α β : Type} {f : α → Except Fault β} {as : List α} :
    (∃ bs, as.mapM f = .ok bs) ↔ ∀ a ∈ as, ∃ b, f a = .ok b := by
  induction as with
  | nil => exact ⟨fun _ => nofun, fun _ => ⟨[], rfl⟩⟩
  | cons a as ih =>
    rw [List.forall_mem_cons, ← ih, List.mapM_cons]
    constructor
    · rintro ⟨bs, h⟩
      obtain ⟨b, hb, h⟩ := bind_eq_ok.1 h
      obtain ⟨bs', hbs, _⟩ := bind_eq_ok.1 h
      exact ⟨⟨b, hb⟩, bs', hbs⟩
    · rintro ⟨⟨b, hb⟩, bs, hbs⟩
      exact ⟨b :: bs, bind_eq_ok.2 ⟨b, hb, bind_eq_ok.2 ⟨bs, hbs, rfl⟩⟩⟩

/-- If every question in a row has an answer, so has the question whether all are answered by yes.
The converse fails, because a no ends the row before later questions are asked. -/
theorem allM_answers {α : Type} {p : α → Except Fault Bool} {as : List α}
    (h : ∀ a ∈ as, ∃ b, p a = .ok b) : ∃ b, as.allM p = .ok b := by
  induction as with
  | nil => exact ⟨true, rfl⟩
  | cons a as ih =>
    obtain ⟨⟨b, hb⟩, has⟩ := List.forall_mem_cons.1 h
    cases b with
    | false => exact ⟨false, bind_eq_ok.2 ⟨false, hb, rfl⟩⟩
    | true =>
      obtain ⟨rest, hrest⟩ := ih has
      exact ⟨rest, bind_eq_ok.2 ⟨true, hb, hrest⟩⟩

/-- The answer to all questions in a row is yes exactly if it is the answer to each of them. -/
theorem allM_eq_true_iff {α : Type} {p : α → Except Fault Bool} {as : List α} :
    as.allM p = .ok true ↔ ∀ a ∈ as, p a = .ok true := by
  induction as with
  | nil => exact ⟨fun _ => nofun, fun _ => rfl⟩
  | cons a as ih =>
    rw [List.forall_mem_cons, ← ih, List.allM, bind_eq_ok]
    constructor
    · rintro ⟨b, hb, h⟩
      cases b with
      | false => cases h
      | true => exact ⟨hb, h⟩
    · rintro ⟨ha, has⟩
      exact ⟨true, ha, has⟩

/-- What a row of steps returns comes from the steps: each result is that of one of them. -/
theorem exists_of_mem_mapM {α β : Type} {f : α → Except Fault β} {as : List α} {bs : List β}
    (h : as.mapM f = .ok bs) {b : β} (hb : b ∈ bs) : ∃ a ∈ as, f a = .ok b := by
  induction as generalizing bs with
  | nil =>
    cases h
    cases hb
  | cons a as ih =>
    rw [List.mapM_cons] at h
    obtain ⟨first, hfirst, h⟩ := bind_eq_ok.1 h
    obtain ⟨rest, hrest, h⟩ := bind_eq_ok.1 h
    cases h
    rcases List.mem_cons.1 hb with rfl | hb
    · exact ⟨a, List.mem_cons_self, hfirst⟩
    · obtain ⟨a', ha', hstep⟩ := ih hrest hb
      exact ⟨a', List.mem_cons_of_mem a ha', hstep⟩

end Fault

namespace Cost

/-- Costs stay below this bound. -/
def bound : Nat := UInt32.size

/-- The sum of two costs, a fault if it reaches the bound. -/
def add (a b : Nat) : Except Fault Nat :=
  if a + b < bound then .ok (a + b) else .error .addOverflow

/-- The sum of costs, taken from the left. It is checked at each addition, so a sum may be a fault
although a later cost is what makes it too large. -/
def sum (costs : List Nat) : Except Fault Nat :=
  costs.foldlM add 0

/-- What some costs come to as a number, which need not be a cost itself. It has no bound, so it is
what laws about costs are stated in. -/
def amount : List Nat → Nat
  | [] => 0
  | c :: costs => c + amount costs

theorem amount_nil : amount [] = 0 := rfl

theorem amount_cons (c : Nat) (costs : List Nat) : amount (c :: costs) = c + amount costs := rfl

/-- Two costs have a sum exactly if it is below the bound. -/
theorem add_eq_ok_iff {a b c : Nat} : add a b = .ok c ↔ c = a + b ∧ a + b < bound := by
  unfold add
  split <;> simp_all [eq_comm]

/-- Costs can be added to what is already paid exactly if all of it together stays below the bound.
Costs are not negative, so no sum on the way is larger than the last one. -/
theorem foldlM_add_eq_ok_iff {costs : List Nat} {paid total : Nat} (hpaid : paid < bound) :
    costs.foldlM add paid = .ok total ↔ total = paid + amount costs ∧ total < bound := by
  induction costs generalizing paid with
  | nil =>
    rw [List.foldlM_nil, amount_nil, Nat.add_zero]
    exact ⟨fun h => by cases h; exact ⟨rfl, hpaid⟩, fun ⟨h, _⟩ => h ▸ rfl⟩
  | cons c costs ih =>
    rw [List.foldlM_cons, Fault.bind_eq_ok, amount_cons]
    constructor
    · rintro ⟨mid, hmid, h⟩
      obtain ⟨rfl, hlt⟩ := add_eq_ok_iff.1 hmid
      obtain ⟨rfl, hbound⟩ := (ih hlt).1 h
      exact ⟨by omega, hbound⟩
    · rintro ⟨rfl, hbound⟩
      -- the sum on the way is part of the whole one
      have hlt : paid + c < bound := by omega
      exact ⟨paid + c, add_eq_ok_iff.2 ⟨rfl, hlt⟩, (ih hlt).2 ⟨by omega, hbound⟩⟩

/-- An addition of costs fails for no other reason than that the sum is too large. -/
theorem add_eq_error {a b : Nat} {e : Fault} (h : add a b = .error e) : e = .addOverflow := by
  unfold add at h
  split at h <;> cases h
  rfl

/-- Costs have a sum if what they come to is below the bound, and that is their sum. -/
theorem sum_eq_ok_iff {costs : List Nat} {total : Nat} :
    sum costs = .ok total ↔ total = amount costs ∧ total < bound := by
  unfold sum
  rw [foldlM_add_eq_ok_iff (by decide), Nat.zero_add]

/-- The only fault of a sum is that it is too large. -/
theorem sum_eq_error {costs : List Nat} {e : Fault} (h : sum costs = .error e) :
    e = .addOverflow := by
  obtain ⟨paid, c, _, hadd⟩ := Fault.exists_error_of_foldlM h
  exact add_eq_error hadd

/-- The sum of costs depends only on what they come to, also where it is a fault: the first cost
that is one, or the first place where the sum is out of range, is the same on both sides. -/
theorem sum_congr {costs others : List Nat} (h : amount costs = amount others) :
    sum costs = sum others := by
  cases hsum : sum others with
  | ok total =>
    rw [sum_eq_ok_iff] at hsum ⊢
    exact h ▸ hsum
  | error e =>
    cases hsum' : sum costs with
    | ok total =>
      -- both sums are in range or neither is, and the fault is one and the same
      have hok : sum others = .ok total := sum_eq_ok_iff.2 (h ▸ sum_eq_ok_iff.1 hsum')
      rw [hok] at hsum
      cases hsum
    | error e' => rw [sum_eq_error hsum, sum_eq_error hsum']

end Cost

namespace Instr

/-- The instruction with its first `n` operands marked as definitions. -/
def withDefs (i : Instr) (n : Nat) : Except Fault Instr :=
  if h : n ≤ i.operands.length then .ok { i with numDefs := n, numDefs_le := h }
  else .error (.excessDefs n i.numOperands)

/-- The operand in slot `k`, a fault past the last one. -/
def operandAt (i : Instr) (k : Nat) : Except Fault Operand :=
  match i.operands[k]? with
  | some op => .ok op
  | none => .error (.operandMissing k i.numOperands)

theorem operandAt_eq_ok_iff {i : Instr} {k : Nat} {op : Operand} :
    i.operandAt k = .ok op ↔ i.operands[k]? = some op := by
  unfold operandAt
  split <;> simp_all

end Instr

end Lowering
