import Lowering.Proofs.Loads

/-!
# Lowering — what a mapping query needs

The target looks at the widths of some operands to map an instruction, and has no mapping if it
cannot. What it needs depends on the rule of the opcode (`Gpu.Measured`), and this is all that it
needs: wherever the operands and the widths are there, every slot that it sets exists and every
operand is covered (`Gpu.mapping_answers_iff`, `Gpu.alternatives_answers_iff`). An instruction whose
own mapping can be told has its alternatives too, so all that can be asked of the target is answered
(`Gpu.Measured.answers`).
-/

namespace Lowering

/-- The operand in slot `k` is a register of known width. -/
def Env.WidthAt (env : Env) (i : Instr) (k : Nat) : Prop :=
  ∃ r w, i.operands[k]? = some (.reg r) ∧ env.width r = some w

/-- The width of every register of the instruction is known. -/
def Env.KnowsWidths (env : Env) (i : Instr) : Prop :=
  ∀ r ∈ i.regs, ∃ w, env.width r = some w

theorem Env.WidthAt.lt {env : Env} {i : Instr} {k : Nat} (h : env.WidthAt i k) :
    k < i.numOperands := by
  obtain ⟨r, w, hr, _⟩ := h
  exact (List.getElem?_eq_some_iff.1 hr).1

theorem Instr.exists_mem_regOperands {i : Instr} {r : Reg} :
    (∃ k, (k, r) ∈ i.regOperands) ↔ r ∈ i.regs := by
  rw [mem_regs, List.mem_iff_getElem?]
  simp only [mem_regOperands]

theorem Env.KnowsWidths.resolveWidth {env : Env} {i : Instr} (h : env.KnowsWidths i) {k : Nat}
    {r : Reg} (hr : (k, r) ∈ i.regOperands) : ∃ w, env.resolveWidth r = .ok w := by
  obtain ⟨w, hw⟩ := h r (Instr.exists_mem_regOperands.1 ⟨k, hr⟩)
  exact ⟨w, Env.resolveWidth_eq_ok_iff.2 hw⟩

/-- Whether any mapping fits an instruction can be told if its registers have known widths. -/
theorem InstrMapping.verify_answers {env : Env} {i : Instr} (h : env.KnowsWidths i)
    (m : InstrMapping) : ∃ fits, m.verify env i = .ok fits := by
  unfold verify
  split
  · refine Fault.allM_answers ?_
    rintro ⟨k, r⟩ hr
    obtain ⟨w, hw⟩ := h.resolveWidth hr
    simp only
    cases m.operands.get? k with
    | none => exact ⟨true, rfl⟩
    | some v => exact ⟨v.width == w, Fault.bind_eq_ok.2 ⟨w, hw, rfl⟩⟩
  · exact ⟨false, rfl⟩

namespace Gpu

variable {env : Env} {i : Instr}

/-! ## Rules that look at the first operands

These rules ask for the widths of some slots by number. Such a slot can be missing, or hold
something that is no register, or a register without a width; what a rule needs rules out all
three. -/

/-- The width of an operand can be told if and only if the operand is a register of known width. -/
theorem operandWidth_answers_iff {k : Nat} :
    (∃ w, operandWidth env i k = .ok w) ↔ env.WidthAt i k := by
  simp only [operandWidth_eq_ok_iff, Env.WidthAt]
  exact exists_comm

/-- A definition in the scalar bank needs the width of what it defines, and nothing else: a map has
a slot for every operand, so the first slot can be set if there is a first operand. -/
theorem scalarDef_answers_iff : (∃ m, scalarDef env i = .ok m) ↔ env.WidthAt i 0 := by
  constructor
  · rintro ⟨m, h⟩
    obtain ⟨w, hw, _⟩ := Fault.bind_eq_ok.1 h
    exact operandWidth_answers_iff.1 ⟨w, hw⟩
  · intro h
    obtain ⟨w, hw⟩ := operandWidth_answers_iff.2 h
    refine ⟨_, Fault.bind_eq_ok.2 ⟨w, hw, Fault.bind_eq_ok.2
      ⟨_, OperandMap.set_eq_ok_iff.2 ⟨?_, rfl⟩, InstrMapping.covering_eq_ok_iff.2 ⟨?_, rfl⟩⟩⟩⟩
    · simpa only [OperandMap.size, OperandMap.absent, List.length_replicate] using h.lt
    · simp only [OperandMap.size, OperandMap.absent, List.length_set, List.length_replicate]

/-- A store needs the width of its value. Of its address it needs only that there is one, which is
taken at the width of a pointer without a look at the operand. -/
theorem store_answers_iff :
    (∃ m, store env i = .ok m) ↔ env.WidthAt i 0 ∧ 2 ≤ i.numOperands := by
  constructor
  · rintro ⟨m, h⟩
    obtain ⟨w, hw, hpair⟩ := Fault.bind_eq_ok.1 h
    have hcount : 2 ≤ i.numOperands := (valueAndAddress_eq_ok_iff.1 hpair).1
    exact ⟨operandWidth_answers_iff.1 ⟨w, hw⟩, hcount⟩
  · rintro ⟨hwidth, hcount⟩
    obtain ⟨w, hw⟩ := operandWidth_answers_iff.2 hwidth
    have hpair : valueAndAddress InstrMapping.defaultCost i (.vector w) (.vector pointerWidth) =
        .ok _ := valueAndAddress_eq_ok_iff.2 ⟨hcount, rfl⟩
    exact ⟨_, Fault.bind_eq_ok.2 ⟨w, hw, hpair⟩⟩

/-- The default rule of a load asks for the widths of both its operands, unlike that of a store. -/
theorem load_answers_iff :
    (∃ m, (load env i).result = .ok m) ↔ env.WidthAt i 0 ∧ env.WidthAt i 1 := by
  constructor
  · rintro ⟨m, h⟩
    obtain ⟨w, hw, h⟩ := Traced.bind_eq_ok.1 h
    obtain ⟨w', hw', _⟩ := Traced.bind_eq_ok.1 h
    exact ⟨operandWidth_answers_iff.1 ⟨w, hw⟩, operandWidth_answers_iff.1 ⟨w', hw'⟩⟩
  · rintro ⟨hvalue, haddress⟩
    obtain ⟨w, hw⟩ := operandWidth_answers_iff.2 hvalue
    obtain ⟨w', hw'⟩ := operandWidth_answers_iff.2 haddress
    exact ⟨_, Traced.bind_eq_ok.2 ⟨w, hw, Traced.bind_eq_ok.2 ⟨w', hw', Traced.bind_eq_ok.2
      ⟨(), rfl, valueAndAddress_eq_ok_iff.2 ⟨haddress.lt, rfl⟩⟩⟩⟩⟩

/-! ## Rules that look at all operands

These rules go through the operands, so no slot can be missing; what they need is a width for every
register. Each is a recursion over the operands and comes with its own induction. -/

/-- A map with a scalar demand on one more register, at its own width. -/
def setScalar (env : Env) (operands : OperandMap) (slot : Nat × Reg) : Except Fault OperandMap := do
  operands.set slot.1 (.scalar (← env.resolveWidth slot.2))

/-- A demand is set if the width of the register is known and the slot is there. -/
theorem setScalar_eq_ok_iff {operands operands' : OperandMap} {slot : Nat × Reg} :
    setScalar env operands slot = .ok operands' ↔
      ∃ w, env.width slot.2 = some w ∧ slot.1 < operands.size ∧
        operands' = ⟨operands.entries.set slot.1 (some (.scalar w))⟩ := by
  unfold setScalar
  simp only [Fault.bind_eq_ok, Env.resolveWidth_eq_ok_iff, OperandMap.set_eq_ok_iff]

/-- Setting demands leaves the number of slots as it is, so that the map still covers all
operands. -/
theorem size_foldlM_setScalar {slots : List (Nat × Reg)} {start operands : OperandMap}
    (h : slots.foldlM (setScalar env) start = .ok operands) : operands.size = start.size := by
  induction slots generalizing start with
  | nil =>
    cases h
    rfl
  | cons slot slots ih =>
    rw [List.foldlM_cons] at h
    obtain ⟨next, hnext, h⟩ := Fault.bind_eq_ok.1 h
    obtain ⟨w, _, _, rfl⟩ := setScalar_eq_ok_iff.1 hnext
    exact (ih h).trans List.length_set

/-- Demands on some registers can all be set if and only if all their widths are known, given that
their slots are there. Induction on the registers. -/
theorem foldlM_setScalar_answers_iff {slots : List (Nat × Reg)} {start : OperandMap}
    (hslots : ∀ slot ∈ slots, slot.1 < start.size) :
    (∃ operands, slots.foldlM (setScalar env) start = .ok operands) ↔
      ∀ slot ∈ slots, ∃ w, env.width slot.2 = some w := by
  induction slots generalizing start with
  | nil => exact ⟨fun _ => nofun, fun _ => ⟨start, rfl⟩⟩
  | cons slot slots ih =>
    obtain ⟨hslot, hrest⟩ := List.forall_mem_cons.1 hslots
    rw [List.forall_mem_cons, List.foldlM_cons]
    -- setting one slot leaves the number of slots as it is
    have hih (w : UInt32) := @ih ⟨start.entries.set slot.1 (some (.scalar w))⟩
      (fun p hp => Nat.lt_of_lt_of_eq (hrest p hp) List.length_set.symm)
    constructor
    · rintro ⟨operands, h⟩
      obtain ⟨next, hnext, h⟩ := Fault.bind_eq_ok.1 h
      obtain ⟨w, hw, _, rfl⟩ := setScalar_eq_ok_iff.1 hnext
      exact ⟨⟨w, hw⟩, (hih w).1 ⟨operands, h⟩⟩
    · rintro ⟨⟨w, hw⟩, hwidths⟩
      obtain ⟨operands, h⟩ := (hih w).2 hwidths
      exact ⟨operands, Fault.bind_eq_ok.2 ⟨_, setScalar_eq_ok_iff.2 ⟨w, hw, hslot, rfl⟩, h⟩⟩

/-- The rule that keeps every register in the scalar bank needs all widths. -/
theorem scalarRegs_answers_iff : (∃ m, scalarRegs env i = .ok m) ↔ env.KnowsWidths i := by
  have habsent : (OperandMap.absent i.numOperands).size = i.numOperands := List.length_replicate
  -- no register stands behind the last slot, so the fold can fail for a width only
  have hslots : ∀ slot ∈ i.regOperands, slot.1 < (OperandMap.absent i.numOperands).size := by
    rintro ⟨k, r⟩ hr
    rw [habsent]
    exact (List.getElem?_eq_some_iff.1 (Instr.mem_regOperands.1 hr)).1
  have hfold : _ ↔ ∀ slot ∈ i.regOperands, ∃ w, env.width slot.2 = some w :=
    foldlM_setScalar_answers_iff hslots
  constructor
  · rintro ⟨m, h⟩ r hr
    obtain ⟨operands, h, _⟩ := Fault.bind_eq_ok.1 h
    obtain ⟨k, hk⟩ := Instr.exists_mem_regOperands.2 hr
    exact hfold.1 ⟨operands, h⟩ _ hk
  · intro h
    have hwidths : ∀ slot ∈ i.regOperands, ∃ w, env.width slot.2 = some w :=
      fun slot hslot => h slot.2 (Instr.exists_mem_regOperands.1 ⟨slot.1, hslot⟩)
    obtain ⟨operands, hops⟩ := hfold.2 hwidths
    exact ⟨_, Fault.bind_eq_ok.2 ⟨operands, hops,
      InstrMapping.covering_eq_ok_iff.2 ⟨(size_foldlM_setScalar hops).trans habsent, rfl⟩⟩⟩

/-- The running width behind an operand. -/
def widthBehind (env : Env) (width : UInt32) (op : Operand) : Option UInt32 :=
  match op.reg? with
  | some r => env.width r
  | none => some width

/-- The running widths of some operands are the width behind the first one and the running widths of
the others from there. -/
theorem runningWidths_cons_eq_ok_iff {width : UInt32} {op : Operand} {ops : List Operand}
    {entries : List (Option ValueMapping)} :
    runningWidths env width (op :: ops) = .ok entries ↔
      ∃ width' later, widthBehind env width op = some width' ∧
        runningWidths env width' ops = .ok later ∧ entries = some (.scalar width') :: later := by
  rw [runningWidths]
  unfold widthBehind
  cases op.reg? with
  | none =>
    simp only [Fault.bind_eq_ok, Except.ok.injEq, Option.some.injEq, exists_and_left,
      eq_comm (b := entries)]
  | some r =>
    simp only [Fault.bind_eq_ok, Env.resolveWidth_eq_ok_iff, Except.ok.injEq, exists_and_left,
      eq_comm (b := entries)]

/-- Every operand gets a width, whether it is a register or not. -/
theorem length_runningWidths {width : UInt32} {ops : List Operand}
    {entries : List (Option ValueMapping)} (h : runningWidths env width ops = .ok entries) :
    entries.length = ops.length := by
  induction ops generalizing width entries with
  | nil =>
    cases h
    rfl
  | cons op ops ih =>
    obtain ⟨width', later, _, hlater, rfl⟩ := runningWidths_cons_eq_ok_iff.1 h
    rw [List.length_cons, List.length_cons, ih hlater]

/-- The running widths can be told if and only if the widths of all registers can, from whatever
width they start. -/
theorem runningWidths_answers_iff {width : UInt32} {ops : List Operand} :
    (∃ entries, runningWidths env width ops = .ok entries) ↔
      ∀ r ∈ ops.filterMap Operand.reg?, ∃ w, env.width r = some w := by
  induction ops generalizing width with
  | nil => exact ⟨fun _ => nofun, fun _ => ⟨[], rfl⟩⟩
  | cons op ops ih =>
    -- an operand that is no register asks for nothing
    have hfirst : (∃ w, widthBehind env width op = some w) ↔
        ∀ r, op.reg? = some r → ∃ w, env.width r = some w := by
      unfold widthBehind
      cases op.reg? <;> simp
    have hcons : (∀ r ∈ (op :: ops).filterMap Operand.reg?, ∃ w, env.width r = some w) ↔
        (∀ r, op.reg? = some r → ∃ w, env.width r = some w) ∧
          ∀ r ∈ ops.filterMap Operand.reg?, ∃ w, env.width r = some w := by
      rw [List.filterMap_cons]
      cases op.reg? <;> simp
    rw [hcons, ← hfirst]
    constructor
    · rintro ⟨entries, h⟩
      obtain ⟨width', later, hwidth, hlater, _⟩ := runningWidths_cons_eq_ok_iff.1 h
      exact ⟨⟨width', hwidth⟩, ih.1 ⟨later, hlater⟩⟩
    · rintro ⟨⟨width', hwidth⟩, hrest⟩
      obtain ⟨later, hlater⟩ := ih.2 hrest
      exact ⟨_, runningWidths_cons_eq_ok_iff.2 ⟨width', later, hwidth, hlater, rfl⟩⟩

/-- An opcode without a rule needs all widths. -/
theorem fallback_answers_iff : (∃ m, fallback env i = .ok m) ↔ env.KnowsWidths i := by
  constructor
  · rintro ⟨m, h⟩
    obtain ⟨entries, hentries, _⟩ := Fault.bind_eq_ok.1 h
    exact runningWidths_answers_iff.1 ⟨entries, hentries⟩
  · intro h
    obtain ⟨entries, hentries⟩ := runningWidths_answers_iff.2 h
    exact ⟨_, Fault.bind_eq_ok.2 ⟨entries, hentries,
      InstrMapping.covering_eq_ok_iff.2 ⟨length_runningWidths hentries, rfl⟩⟩⟩

/-! ## All that can be asked

The needs of the rules together, one case for each rule. Alternatives need less than a mapping does,
so whoever can ask for the one can ask for the other. -/

/-- What the rule of the opcode needs to know of the operands. -/
def Measured (env : Env) (i : Instr) : Prop :=
  match i.opcode.rule? with
  | some .scalarDef => env.WidthAt i 0
  | some .store => env.WidthAt i 0 ∧ 2 ≤ i.numOperands
  | some .load => env.WidthAt i 0 ∧ env.WidthAt i 1
  | some .scalarRegs | none => env.KnowsWidths i

/-- The target has a mapping of its own for an instruction if and only if it is measured. -/
theorem mapping_answers_iff : (∃ m, (gpu.mapping env i).result = .ok m) ↔ Measured env i := by
  change (∃ m, (mapping env i).result = .ok m) ↔ _
  unfold mapping Measured
  cases i.opcode.rule? with
  | none =>
    simp only [Traced.result_bind, Traced.result_emit]
    exact fallback_answers_iff
  | some rule =>
    cases rule with
    | scalarDef => exact scalarDef_answers_iff
    | scalarRegs => exact scalarRegs_answers_iff
    | store => exact store_answers_iff
    | load => exact load_answers_iff

/-- Only a load has alternatives, and it has them if the width of its value is known and there is an
address. The width of the address is not asked for, since every alternative takes it at the width of
a pointer. -/
theorem alternatives_answers_iff :
    (∃ ms, (gpu.alternatives env i).result = .ok ms) ↔
      (i.opcode = .load → env.WidthAt i 0 ∧ 2 ≤ i.numOperands) := by
  change (∃ ms, alternatives env i = .ok ms) ↔ _
  unfold alternatives
  rw [← Opcode.hasAlternatives_iff]
  split
  · next hload =>
    simp only [hload, forall_const]
    constructor
    · rintro ⟨ms, h⟩
      obtain ⟨w, hw, h⟩ := Fault.bind_eq_ok.1 h
      obtain ⟨m, hm⟩ := Fault.mapM_answers_iff.1 ⟨ms, h⟩ (1, .scalar, .scalar) (by decide)
      exact ⟨operandWidth_answers_iff.1 ⟨w, hw⟩, (valueAndAddress_eq_ok_iff.1 hm).1⟩
    · rintro ⟨hwidth, hcount⟩
      obtain ⟨w, hw⟩ := operandWidth_answers_iff.2 hwidth
      -- the same two slots are set by every alternative, so they have all of them or none
      have hchoices : ∀ choice ∈ loadChoices, ∃ m,
          valueAndAddress choice.1 i ⟨choice.2.1, w⟩ ⟨choice.2.2, pointerWidth⟩ = .ok m :=
        fun _ _ => ⟨_, valueAndAddress_eq_ok_iff.2 ⟨hcount, rfl⟩⟩
      obtain ⟨ms, hms⟩ := Fault.mapM_answers_iff.2 hchoices
      exact ⟨ms, Fault.bind_eq_ok.2 ⟨w, hw, hms⟩⟩
  · next hother => exact ⟨fun _ hload => absurd hload hother, fun _ => ⟨[], rfl⟩⟩

/-- Every question about how to map the instruction has an answer. -/
structure Answers (env : Env) (i : Instr) : Prop where
  mapping : ∃ m, (gpu.mapping env i).result = .ok m
  alternatives : ∃ ms, (gpu.alternatives env i).result = .ok ms
  possible : ∃ ms, (gpu.possibleMappings env i).result = .ok ms
  assign : ∀ mode, ∃ a, (gpu.assign env i mode).result = .ok a

/-- If the target's own mapping can be told, so can all its mappings. Only a load has others, and
what they ask for is among what the mapping of a load asks for. -/
theorem Measured.answers (h : Measured env i) : Answers env i := by
  obtain ⟨m, hm⟩ := mapping_answers_iff.2 h
  have hload : i.opcode = .load → env.WidthAt i 0 ∧ 2 ≤ i.numOperands := by
    intro hload
    simp only [Measured, hload, Opcode.rule?] at h
    exact ⟨h.1, h.2.lt⟩
  obtain ⟨ms, hms⟩ := alternatives_answers_iff.2 hload
  refine ⟨⟨m, hm⟩, ⟨ms, hms⟩, ⟨m :: ms, ?_⟩, ?_⟩
  · exact Traced.bind_eq_ok.2 ⟨m, hm, Traced.bind_eq_ok.2 ⟨ms, hms, rfl⟩⟩
  · intro mode
    cases mode with
    | fast => exact ⟨.single m, Traced.bind_eq_ok.2 ⟨m, hm, rfl⟩⟩
    -- the greedy mode falls back on the mapping if there are no alternatives
    | greedy =>
      cases ms with
      | nil => exact ⟨.single m, Traced.bind_eq_ok.2 ⟨[], hms, Traced.bind_eq_ok.2 ⟨m, hm, rfl⟩⟩⟩
      | cons first rest => exact ⟨.alternatives (first :: rest), Traced.bind_eq_ok.2 ⟨_, hms, rfl⟩⟩

end Gpu

end Lowering
