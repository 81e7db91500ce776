import Lowering.Proofs.Choices
import Lowering.Proofs.Completion

/-!
# Lowering — why a mapping query fails

The target fails to map an instruction for one of four reasons: an operand that it looks at is
missing, or is no register, or has no known width, or an operand that it maps without looking at it
is missing (`Gpu.Lacks`). The maps that it makes have an entry for each operand, so none of its
mappings is ever refused for not covering them (`Gpu.mapping_failsOnly`,
`Gpu.alternatives_failsOnly`).

The alternatives of a load look at less than its own mapping does. So the greedy mode asks more
questions than the fast mode and fails on the same streams, though not always with the same fault
(`Selection.run_fails_alike`).
-/

namespace Lowering

/-! ## Faults of some kind only

A computation that calls others fails as one of them does. So what is asked of a computation is only
that it fails in the ways that are allowed, and this goes through sequences and loops; nothing is
said about when it fails. -/

/-- If the computation fails, then with a fault of the given kind. -/
def Fault.FailsOnly {α : Type} (P : Fault → Prop) (x : Except Fault α) : Prop :=
  ∀ e, x = .error e → P e

/-- A computation has a value just if it does not fail. -/
theorem Fault.answers_iff_not_fails {α : Type} {x : Except Fault α} :
    (∃ a, x = .ok a) ↔ ¬ ∃ e, x = .error e := by
  cases x with
  | ok a => exact ⟨fun _ => nofun, fun _ => ⟨a, rfl⟩⟩
  | error e => exact ⟨nofun, fun h => absurd ⟨e, rfl⟩ h⟩

namespace Fault.FailsOnly

variable {α β : Type} {P : Fault → Prop}

theorem ok (a : α) : FailsOnly P (.ok a) :=
  nofun

theorem error {e : Fault} (h : P e) : FailsOnly P (.error e : Except Fault α) := by
  rintro _ ⟨⟩
  exact h

/-- A sequence fails as its first part does, or as what follows does on the value of the first
part. -/
theorem bind {x : Except Fault α} {f : α → Except Fault β} (hx : FailsOnly P x)
    (hf : ∀ a, x = .ok a → FailsOnly P (f a)) : FailsOnly P (x >>= f) := by
  intro e he
  obtain hfirst | ⟨a, ha, hsecond⟩ := bind_eq_error.1 he
  · exact hx e hfirst
  · exact hf a ha e hsecond

/-- A computation for every element fails as one of them does. Induction on the elements. -/
theorem mapM {f : α → Except Fault β} {as : List α} (hf : ∀ a ∈ as, FailsOnly P (f a)) :
    FailsOnly P (as.mapM f) := by
  induction as with
  | nil => exact ok []
  | cons a as ih =>
    obtain ⟨ha, has⟩ := List.forall_mem_cons.1 hf
    rw [List.mapM_cons]
    exact ha.bind fun b _ => (ih has).bind fun bs _ => ok (b :: bs)

/-- The steps of a fold may rely on what each of them keeps. -/
theorem foldlM {f : β → α → Except Fault β} {as : List α} {Keeps : β → Prop} {b : β} (hb : Keeps b)
    (hf : ∀ b, ∀ a ∈ as, Keeps b → FailsOnly P (f b a))
    (hkeeps : ∀ b a next, Keeps b → f b a = .ok next → Keeps next) :
    FailsOnly P (as.foldlM f b) := by
  induction as generalizing b with
  | nil => exact ok b
  | cons a as ih =>
    -- what is kept holds before each step, so it may be used where the step can fail
    rw [List.foldlM_cons]
    refine (hf b a List.mem_cons_self hb).bind fun next hnext => ?_
    exact ih (hkeeps b a next hb hnext) fun b a ha => hf b a (List.mem_cons_of_mem _ ha)

end Fault.FailsOnly

namespace Gpu

open Fault (FailsOnly)

variable {env : Env} {i : Instr}

/-! ## What can be missing

The four causes, each with what it says of the instruction. The computations below are shown to fail
for one of these; the slots and registers that they report are those of the instruction itself. -/

/-- What the target can miss in an instruction that it is to map. -/
inductive Lacks (env : Env) (i : Instr) : Fault → Prop where
  /-- The operand that the rule looks at. -/
  | operand {k : Nat} (hk : i.operands[k]? = none) : Lacks env i (.operandMissing k i.numOperands)
  /-- A register in the slot that the rule looks at. -/
  | register {k : Nat} {op : Operand} (hop : i.operands[k]? = some op) (hreg : op.reg? = none) :
      Lacks env i (.notRegister k i)
  /-- The width of a register. -/
  | width {r : Reg} (hr : r ∈ i.regs) (hw : env.width r = none) : Lacks env i (.unresolvedWidth r)
  /-- The operand that the rule maps without looking at it. -/
  | slot {k : Nat} (hk : i.operands[k]? = none) : Lacks env i (.outsideMapping k i.numOperands)

/-- None of the causes is a mapping that leaves operands without an entry. -/
theorem Lacks.ne_uncovered {e : Fault} (h : Lacks env i e) (mapped expected : Nat) :
    e ≠ .uncoveredOperands mapped expected := by
  cases h <;> nofun

theorem resolveWidth_failsOnly {r : Reg} (hr : r ∈ i.regs) :
    FailsOnly (Lacks env i) (env.resolveWidth r) := by
  unfold Env.resolveWidth
  split
  · exact .ok _
  · next hw => exact .error (.width hr hw)

/-- The width of an operand can be missing because there is no such operand, because it is no
register, or because the width of the register is not known. -/
theorem operandWidth_failsOnly (k : Nat) : FailsOnly (Lacks env i) (operandWidth env i k) := by
  have hat : FailsOnly (Lacks env i) (i.operandAt k) := by
    unfold Instr.operandAt
    split
    · exact .ok _
    · next hnone => exact .error (.operand hnone)
  refine hat.bind fun op hop => ?_
  have hop : i.operands[k]? = some op := Instr.operandAt_eq_ok_iff.1 hop
  split
  · next r hr =>
    rw [Operand.reg?_eq_some_iff.1 hr] at hop
    exact resolveWidth_failsOnly (Instr.mem_regs.2 (List.mem_of_getElem? hop))
  · next hreg => exact .error (.register hop hreg)

/-! ## Maps with an entry for each operand

What rules out the fourth fault of the program, the one for a mapping that does not cover the
operands: all maps come from the one without demands, which has a slot for each operand, and setting
a demand keeps the slots. -/

/-- The map has an entry for each operand. -/
def Whole (i : Instr) (m : OperandMap) : Prop :=
  m.size = i.numOperands

theorem whole_absent (i : Instr) : Whole i (.absent i.numOperands) :=
  List.length_replicate

variable {m m' : OperandMap} {k : Nat} {v : ValueMapping}

theorem Whole.set (h : Whole i m) (hset : m.set k v = .ok m') : Whole i m' := by
  obtain ⟨_, rfl⟩ := OperandMap.set_eq_ok_iff.1 hset
  exact List.length_set.trans h

/-- Setting a demand in a whole map fails only for want of the operand. -/
theorem Whole.set_failsOnly (h : Whole i m) : FailsOnly (Lacks env i) (m.set k v) := by
  unfold OperandMap.set
  split
  · exact .ok _
  · next hk =>
    rw [h] at hk ⊢
    exact .error (.slot (List.getElem?_eq_none (Nat.le_of_not_lt hk)))

/-- A whole map always makes a mapping. -/
theorem Whole.cover_failsOnly (h : Whole i m) (cost : Nat) :
    FailsOnly (Lacks env i) (cover cost i m) := by
  intro e he
  cases (InstrMapping.covering_eq_ok_iff.2 ⟨h, rfl⟩ : cover cost i m = .ok _).symm.trans he

/-! ## The rules

One lemma for each rule. Each goes through the rule from top to bottom and names the part that can
fail at every step. -/

/-- A definition in the scalar bank looks at its first operand and sets its slot. -/
theorem scalarDef_failsOnly : FailsOnly (Lacks env i) (scalarDef env i) := by
  refine (operandWidth_failsOnly 0).bind fun w _ => ?_
  refine (whole_absent i).set_failsOnly.bind fun operands hset => ?_
  exact ((whole_absent i).set hset).cover_failsOnly _

/-- The first two slots are set without a look at the operands in them, so what can be missing here
is a slot. -/
theorem valueAndAddress_failsOnly (cost : Nat) (x y : ValueMapping) :
    FailsOnly (Lacks env i) (valueAndAddress cost i x y) := by
  refine (whole_absent i).set_failsOnly.bind fun first hfirst => ?_
  have hwhole : Whole i first := (whole_absent i).set hfirst
  refine hwhole.set_failsOnly.bind fun second hsecond => ?_
  exact (hwhole.set hsecond).cover_failsOnly cost

/-- A store looks at its value and takes its address as it is. -/
theorem store_failsOnly : FailsOnly (Lacks env i) (store env i) := by
  refine (operandWidth_failsOnly 0).bind fun w _ => ?_
  exact valueAndAddress_failsOnly InstrMapping.defaultCost (.vector w) (.vector pointerWidth)

theorem load_failsOnly : FailsOnly (Lacks env i) (load env i).result := by
  unfold load
  simp only [Traced.result_bind]
  refine (operandWidth_failsOnly 0).bind fun w _ => ?_
  refine (operandWidth_failsOnly 1).bind fun w' _ => ?_
  exact (FailsOnly.ok ()).bind fun _ _ => valueAndAddress_failsOnly _ _ _

/-- The loop over the registers keeps the map whole, so none of its steps misses a slot. What is
left to fail are the widths, each asked of a register of the instruction. -/
theorem scalarRegs_failsOnly : FailsOnly (Lacks env i) (scalarRegs env i) := by
  have hfold : FailsOnly (Lacks env i)
      (i.regOperands.foldlM (setScalar env) (.absent i.numOperands)) := by
    -- the loop invariant is that the map is whole
    refine FailsOnly.foldlM (whole_absent i) ?_ ?_
    · rintro operands ⟨k, r⟩ hslot hwhole
      have hr : r ∈ i.regs := Instr.exists_mem_regOperands.1 ⟨k, hslot⟩
      exact (resolveWidth_failsOnly hr).bind fun w _ => hwhole.set_failsOnly
    · rintro operands ⟨k, r⟩ next hwhole hnext
      obtain ⟨w, _, hset⟩ := Fault.bind_eq_ok.1 hnext
      exact hwhole.set hset
  refine hfold.bind fun operands hoperands => ?_
  have hwhole : Whole i operands := (size_foldlM_setScalar hoperands).trans (whole_absent i)
  exact hwhole.cover_failsOnly _

/-- Running widths are asked of registers of the instruction only. Induction on the operands that
are left. -/
theorem runningWidths_failsOnly {width : UInt32} {ops : List Operand} (hops : ops ⊆ i.operands) :
    FailsOnly (Lacks env i) (runningWidths env width ops) := by
  induction ops generalizing width with
  | nil => exact .ok []
  | cons op ops ih =>
    obtain ⟨hop, hrest⟩ := List.cons_subset.1 hops
    rw [runningWidths]
    split
    · next r hr =>
      rw [Operand.reg?_eq_some_iff.1 hr] at hop
      refine (resolveWidth_failsOnly (Instr.mem_regs.2 hop)).bind fun w _ => ?_
      exact (ih hrest).bind fun entries _ => .ok _
    · exact (FailsOnly.ok width).bind fun w _ => (ih hrest).bind fun entries _ => .ok _

/-- An opcode without a rule gets an entry for each operand, so only a width can be missing. -/
theorem fallback_failsOnly : FailsOnly (Lacks env i) (fallback env i) := by
  refine (runningWidths_failsOnly (List.Subset.refl _)).bind fun entries hentries => ?_
  have hwhole : Whole i ⟨entries⟩ := length_runningWidths hentries
  exact hwhole.cover_failsOnly _

/-- The target's own mapping fails only for something that is missing in the instruction. -/
theorem mapping_failsOnly : FailsOnly (Lacks env i) (gpu.mapping env i).result := by
  change FailsOnly (Lacks env i) (mapping env i).result
  unfold mapping
  cases i.opcode.rule? with
  | none =>
    simp only [Traced.result_bind, Traced.result_emit]
    exact (FailsOnly.ok ()).bind fun _ _ => fallback_failsOnly
  | some rule =>
    cases rule with
    | scalarDef => exact scalarDef_failsOnly
    | scalarRegs => exact scalarRegs_failsOnly
    | store => exact store_failsOnly
    | load => exact load_failsOnly

/-- So do the alternatives. -/
theorem alternatives_failsOnly : FailsOnly (Lacks env i) (gpu.alternatives env i).result := by
  change FailsOnly (Lacks env i) (alternatives env i)
  unfold alternatives
  split
  · refine (operandWidth_failsOnly 0).bind fun w _ => ?_
    exact FailsOnly.mapM fun choice _ => valueAndAddress_failsOnly _ _ _
  · exact .ok []

/-! ## What each opcode needs

The needs of `Gpu.Measured` opcode by opcode, as they are stated of the target at the end. -/

/-- Three opcodes have a need of their own, and all others need all widths. -/
theorem measured_iff : Measured env i ↔
    (i.opcode = .constant → env.WidthAt i 0) ∧
    (i.opcode = .store → env.WidthAt i 0 ∧ 2 ≤ i.numOperands) ∧
    (i.opcode = .load → env.WidthAt i 0 ∧ env.WidthAt i 1) ∧
    (i.opcode ∉ [.constant, .store, .load] → env.KnowsWidths i) := by
  unfold Measured
  cases i.opcode <;> simp [Opcode.rule?]

/-- Alternatives fail for a load only, if the width of its value is not known or if there is no
address. -/
theorem alternatives_fails_iff : (∃ e, (gpu.alternatives env i).result = .error e) ↔
    i.opcode = .load ∧ (¬ env.WidthAt i 0 ∨ i.numOperands < 2) := by
  rw [← not_iff_not, ← Fault.answers_iff_not_fails, alternatives_answers_iff]
  simp only [not_and, not_or, not_not, Nat.not_lt]

end Gpu

namespace Selection

open Gpu (Measured Lacks)

variable {mode : Mode} {env : Env} {is : List Instr} {s : Selection}

/-! ## Streams

The greedy mode asks for the alternatives of every instruction besides its own mapping. It fails at
no other stream than the fast mode, since alternatives can be had where the mapping can
(`Gpu.Measured.answers`); the questions come in another order, so the fault may be another one. -/

/-- Selection does not get past an instruction whose own mapping cannot be told. -/
theorem measured_of_run (h : (run gpu mode env is).result = .ok s) :
    ∀ i ∈ is, Measured env i := by
  intro i hi
  obtain ⟨j, hj⟩ := List.mem_iff_getElem?.1 hi
  obtain ⟨_, _, _, _, _, _, hchosen, _⟩ := run_at h hj
  rw [choose_eq] at hchosen
  obtain ⟨_, _, hchosen⟩ := Traced.bind_eq_ok.1 hchosen
  obtain ⟨m, hm, _⟩ := Traced.bind_eq_ok.1 hchosen
  exact Gpu.mapping_answers_iff.1 ⟨m, hm⟩

/-- Where no cost overflows, selection fails on the streams that hold an instruction whose own
mapping cannot be told, whatever the mode. -/
theorem run_fails_iff (h : (run gpu mode env is).result ≠ .error .addOverflow) :
    (∃ e, (run gpu mode env is).result = .error e) ↔ ¬ ∀ i ∈ is, Measured env i := by
  constructor
  · rintro ⟨e, he⟩ hmeasured
    obtain ⟨s, hs⟩ | ⟨_, hoverflow⟩ := run_endsIf hmeasured
    · cases hs.symm.trans he
    · exact h hoverflow
  · intro hmeasured
    cases hrun : (run gpu mode env is).result with
    | ok s => exact absurd (measured_of_run hrun) hmeasured
    | error e => exact ⟨e, rfl⟩

/-- The target has a mapping of its own for an instruction just if the operands that the rule of its
opcode looks at are registers of known width, and the slots that it sets exist. Its alternatives can
only be missing for a load, where the value is no such register or the address is not there. Neither
ever fails for a map that does not cover the operands. So, unless a cost overflows, selection fails
in the greedy mode just on the streams on which it fails in the fast mode. -/
theorem run_fails_alike (env : Env) :
    (∀ i : Instr,
      ((∃ m, (gpu.mapping env i).result = .ok m) ↔
        (i.opcode = .constant → env.WidthAt i 0) ∧
        (i.opcode = .store → env.WidthAt i 0 ∧ 2 ≤ i.numOperands) ∧
        (i.opcode = .load → env.WidthAt i 0 ∧ env.WidthAt i 1) ∧
        (i.opcode ∉ [.constant, .store, .load] → env.KnowsWidths i)) ∧
      ((∃ e, (gpu.alternatives env i).result = .error e) ↔
        i.opcode = .load ∧ (¬ env.WidthAt i 0 ∨ i.numOperands < 2)) ∧
      ∀ e, (gpu.mapping env i).result = .error e ∨ (gpu.alternatives env i).result = .error e →
        Lacks env i e ∧ ∀ mapped expected, e ≠ .uncoveredOperands mapped expected) ∧
    ∀ is : List Instr, (∀ mode, (run gpu mode env is).result ≠ .error .addOverflow) →
      ((∃ e, (run gpu .greedy env is).result = .error e) ↔
        ∃ e, (run gpu .fast env is).result = .error e) := by
  refine ⟨fun i => ⟨?_, Gpu.alternatives_fails_iff, ?_⟩, fun is hcosts => ?_⟩
  · rw [Gpu.mapping_answers_iff, Gpu.measured_iff]
  · intro e he
    -- what an instruction can lack does not include a map that does not cover it
    have hlacks : Lacks env i e := he.elim (Gpu.mapping_failsOnly e) (Gpu.alternatives_failsOnly e)
    exact ⟨hlacks, hlacks.ne_uncovered⟩
  · rw [run_fails_iff (hcosts .greedy), run_fails_iff (hcosts .fast)]

/-- A load without an address: the fast mode misses it when it looks at it, and the greedy mode when
an alternative is to map it. -/
theorem run_fails_alike_load :
    let env : Env := ⟨fun _ => some 32, fun _ => none, fun _ => false⟩
    let i : Instr := ⟨.load, [.reg ⟨0⟩], 1, [], by decide⟩
    (run gpu .fast env [i]).result = .error (.operandMissing 1 1) ∧
      (run gpu .greedy env [i]).result = .error (.outsideMapping 1 1) ∧
      Lacks env i (.operandMissing 1 1) ∧ Lacks env i (.outsideMapping 1 1) ∧
      ((∃ e, (run gpu .greedy env [i]).result = .error e) ↔
        ∃ e, (run gpu .fast env [i]).result = .error e) := by
  intro env i
  obtain ⟨hqueries, hruns⟩ := run_fails_alike env
  obtain ⟨_, _, hlacks⟩ := hqueries i
  have hmapping : (gpu.mapping env i).result = .error (.operandMissing 1 1) := rfl
  have halternatives : (gpu.alternatives env i).result = .error (.outsideMapping 1 1) := rfl
  have hcosts : ∀ mode, (run gpu mode env [i]).result ≠ .error .addOverflow := by
    rintro (_ | _) <;> nofun
  exact ⟨rfl, rfl, (hlacks _ (.inl hmapping)).1, (hlacks _ (.inr halternatives)).1,
    hruns [i] hcosts⟩

end Selection

end Lowering
