import Lowering.Proofs.Choices
import Lowering.Proofs.NearestRegister

/-!
# Lowering — which mappings fit

A mapping fits its instruction if it has an entry for each operand and demands every register at its
own width; this is what verification finds (`InstrMapping.verify_eq_true_iff`). Every rule of the
target covers all operands and gives each register its own width, with one exception: a store, and
every alternative of a load, takes the address at the width of a pointer. So these fit if and only if
the address is not a register of another width (`Gpu.mapping_fits_iff`,
`Gpu.alternative_fits_iff`), all other mappings fit, and of the mappings that selection chooses just
those do not fit that it has from one of these two (`Selection.run_fits`).
-/

namespace Lowering

/-- Every demand on a register operand of the instruction is at the width of the register. -/
def OperandMap.Sized (m : OperandMap) (env : Env) (i : Instr) : Prop :=
  ∀ k r v, i.operands[k]? = some (.reg r) → m.get? k = some v → env.width r = some v.width

/-- The mapping has an entry for each operand and demands registers at their widths. -/
structure InstrMapping.Fits (m : InstrMapping) (env : Env) (i : Instr) : Prop where
  covers : m.numOperands = i.numOperands
  sized : m.operands.Sized env i

/-- The operand that is the address of a load or store is a register, but not as wide as a pointer. -/
def Env.OddAddress (env : Env) (i : Instr) : Prop :=
  ∃ r, i.operands[1]? = some (.reg r) ∧ env.width r ≠ some Gpu.pointerWidth

/-- Verification is content exactly if the mapping fits: it has an entry for each operand, and what
it demands of a register is at the width of the register. -/
theorem InstrMapping.verify_eq_true_iff {m : InstrMapping} {env : Env} {i : Instr} :
    m.verify env i = .ok true ↔ m.Fits env i := by
  unfold verify
  split
  · next hcovers =>
    rw [Fault.allM_eq_true_iff]
    constructor
    · intro h
      refine ⟨hcovers, fun k r v hr hv => ?_⟩
      -- what is asked of a slot is answered by the demand that is there
      have hslot := h (k, r) (Instr.mem_regOperands.2 hr)
      simp only [hv] at hslot
      obtain ⟨w, hw, hsame⟩ := Fault.bind_eq_ok.1 hslot
      rw [Env.resolveWidth_eq_ok_iff.1 hw, ← beq_iff_eq.1 (Except.ok.inj hsame)]
    · rintro h ⟨k, r⟩ hr
      -- a register on which nothing is demanded is at no wrong width
      cases hv : m.operands.get? k with
      | none =>
        simp only [hv]
        rfl
      | some v =>
        have hw : env.width r = some v.width := h.sized k r v (Instr.mem_regOperands.1 hr) hv
        simp only [hv]
        exact Fault.bind_eq_ok.2 ⟨v.width, Env.resolveWidth_eq_ok_iff.2 hw,
          congrArg Except.ok (beq_iff_eq.2 rfl)⟩
  · next hcovers => exact ⟨nofun, fun h => absurd h.covers hcovers⟩

namespace OperandMap

variable {m m' : OperandMap} {env : Env} {i : Instr} {k : Nat} {v : ValueMapping}

/-- A map without demands demands nothing at a wrong width. Every rule starts from it. -/
theorem absent_sized (n : Nat) : (absent n).Sized env i := by
  intro k r v _ hv
  have hentry : (absent n).entries[k]? = some (some v) := Option.join_eq_some_iff.1 hv
  cases List.eq_of_mem_replicate (List.mem_of_getElem? hentry)

/-- A demand that was set is the one of its slot, and those of the other slots are as they were. -/
theorem get?_set (hset : m.set k v = .ok m') (j : Nat) :
    m'.get? j = if k = j then some v else m.get? j := by
  obtain ⟨hk, rfl⟩ := set_eq_ok_iff.1 hset
  have hlt : k < m.entries.length := hk
  unfold get?
  rw [List.getElem?_set]
  by_cases hj : k = j
  · rw [if_pos hj, if_pos hj, if_pos hlt]
    rfl
  · rw [if_neg hj, if_neg hj]

/-- One more demand keeps a map sized if it is at the width of its register. -/
theorem Sized.set (h : m.Sized env i) (hset : m.set k v = .ok m')
    (hv : ∀ r, i.operands[k]? = some (.reg r) → env.width r = some v.width) :
    m'.Sized env i := by
  intro j r x hr hx
  rw [get?_set hset] at hx
  split at hx
  · next hj =>
    cases hx
    exact hv r (hj ▸ hr)
  · exact h j r x hr hx

end OperandMap

namespace Gpu

variable {env : Env} {i : Instr} {m : InstrMapping} {cost : Nat} {x y : ValueMapping}

/-! ## The rules

Each rule makes its map by setting demands one after the other, so it is enough that each of them is
at the width of its register. The rules differ in where they take the widths from. -/

/-- A sized map makes a mapping that fits, since `cover` has checked that it covers. -/
theorem fits_of_cover {operands : OperandMap} (hops : operands.Sized env i)
    (h : cover cost i operands = .ok m) : m.Fits env i := by
  obtain ⟨hcovers, rfl⟩ := InstrMapping.covering_eq_ok_iff.1 h
  exact ⟨hcovers, hops⟩

/-- The width of an operand is that of its register. -/
theorem width_of_operandWidth {k : Nat} {w : UInt32} (h : operandWidth env i k = .ok w) {r : Reg}
    (hr : i.operands[k]? = some (.reg r)) : env.width r = some w := by
  obtain ⟨s, hs, hw⟩ := operandWidth_eq_ok_iff.1 h
  cases hr.symm.trans hs
  exact hw

theorem scalarDef_fits (h : scalarDef env i = .ok m) : m.Fits env i := by
  obtain ⟨w, hw, h⟩ := Fault.bind_eq_ok.1 h
  obtain ⟨operands, hset, h⟩ := Fault.bind_eq_ok.1 h
  have hops : operands.Sized env i :=
    (OperandMap.absent_sized i.numOperands).set hset fun r hr => width_of_operandWidth hw hr
  exact fits_of_cover hops h

/-- Registers of the instruction are set at their own widths one after the other, over any map that
is sized so far. Induction on the registers that are left. -/
theorem foldlM_setScalar_sized {slots : List (Nat × Reg)} {start operands : OperandMap}
    (hslots : ∀ slot ∈ slots, i.operands[slot.1]? = some (.reg slot.2)) (hstart : start.Sized env i)
    (h : slots.foldlM (setScalar env) start = .ok operands) : operands.Sized env i := by
  induction slots generalizing start with
  | nil =>
    cases h
    exact hstart
  | cons slot slots ih =>
    obtain ⟨hslot, hrest⟩ := List.forall_mem_cons.1 hslots
    rw [List.foldlM_cons] at h
    obtain ⟨next, hnext, h⟩ := Fault.bind_eq_ok.1 h
    obtain ⟨w, hw, hset⟩ := Fault.bind_eq_ok.1 hnext
    have hnextSized : next.Sized env i := by
      -- the width that is set is the one that was resolved for this register
      refine hstart.set hset fun r hr => ?_
      cases hr.symm.trans hslot
      exact Env.resolveWidth_eq_ok_iff.1 hw
    exact ih hrest hnextSized h

theorem scalarRegs_fits (h : scalarRegs env i = .ok m) : m.Fits env i := by
  obtain ⟨operands, hfold, h⟩ := Fault.bind_eq_ok.1 h
  have hslots : ∀ slot ∈ i.regOperands, i.operands[slot.1]? = some (.reg slot.2) :=
    fun _ hslot => Instr.mem_regOperands.1 hslot
  exact fits_of_cover
    (foldlM_setScalar_sized hslots (OperandMap.absent_sized i.numOperands) hfold) h

/-- Whatever width runs up to an operand, a register is demanded at its own. -/
theorem runningWidths_sized {width : UInt32} {ops : List Operand}
    {entries : List (Option ValueMapping)} (h : runningWidths env width ops = .ok entries) {k : Nat}
    {r : Reg} {v : ValueMapping} (hr : ops[k]? = some (.reg r)) (hv : entries[k]?.join = some v) :
    env.width r = some v.width := by
  have hk : k < ops.length := (List.getElem?_eq_some_iff.1 hr).1
  obtain ⟨w, hentry, hw⟩ := getElem?_runningWidths h hk
  rw [hentry] at hv
  cases hv
  exact hw.width_eq (.own hr)

/-- Without a rule every register is demanded at its own width. What is demanded of the other
operands does not matter to a mapping that fits. -/
theorem fallback_fits (h : fallback env i = .ok m) : m.Fits env i := by
  obtain ⟨entries, hentries, h⟩ := Fault.bind_eq_ok.1 h
  exact fits_of_cover (fun _ _ _ hr hv => runningWidths_sized hentries hr hv) h

/-! ## Value and address

Loads, their alternatives and stores all map a value and an address. They differ in banks and costs,
which do not matter here, and in the width of the address. -/

/-- A mapping of value and address fits exactly if both are at the widths of their registers. -/
theorem pair_fits_iff (h : valueAndAddress cost i x y = .ok m) :
    m.Fits env i ↔ (∀ r, i.operands[0]? = some (.reg r) → env.width r = some x.width) ∧
      ∀ r, i.operands[1]? = some (.reg r) → env.width r = some y.width := by
  obtain ⟨first, hfirst, h⟩ := Fault.bind_eq_ok.1 h
  obtain ⟨second, hsecond, h⟩ := Fault.bind_eq_ok.1 h
  -- the address is set behind the value and leaves it as it is
  have hvalue : second.get? 0 = some x := by
    rw [OperandMap.get?_set hsecond, if_neg (by decide), OperandMap.get?_set hfirst, if_pos rfl]
  have haddress : second.get? 1 = some y := by
    rw [OperandMap.get?_set hsecond, if_pos rfl]
  obtain ⟨hcovers, rfl⟩ := InstrMapping.covering_eq_ok_iff.1 h
  constructor
  · rintro ⟨_, hsized⟩
    exact ⟨fun r hr => hsized 0 r x hr hvalue, fun r hr => hsized 1 r y hr haddress⟩
  · rintro ⟨hx, hy⟩
    exact ⟨hcovers, ((OperandMap.absent_sized i.numOperands).set hfirst hx).set hsecond hy⟩

/-- With the value at its own width and the address at that of a pointer, only the address can be of
another width. -/
theorem pointer_fits_iff {w : UInt32} {b b' : Bank} (hw : operandWidth env i 0 = .ok w)
    (h : valueAndAddress cost i ⟨b, w⟩ ⟨b', pointerWidth⟩ = .ok m) :
    m.Fits env i ↔ ¬ env.OddAddress i := by
  rw [pair_fits_iff h]
  constructor
  · rintro ⟨_, haddress⟩ ⟨r, hr, hne⟩
    exact hne (haddress r hr)
  · intro hodd
    refine ⟨fun r hr => width_of_operandWidth hw hr, fun r hr => ?_⟩
    by_contra hne
    exact hodd ⟨r, hr, hne⟩

/-- A mapping of value and address covers all operands, fitting or not. -/
theorem numOperands_of_valueAndAddress (h : valueAndAddress cost i x y = .ok m) :
    m.numOperands = i.numOperands := by
  obtain ⟨first, _, h⟩ := Fault.bind_eq_ok.1 h
  obtain ⟨second, _, h⟩ := Fault.bind_eq_ok.1 h
  obtain ⟨hcovers, rfl⟩ := InstrMapping.covering_eq_ok_iff.1 h
  exact hcovers

/-- A load takes both widths from the registers, so it always fits. -/
theorem load_fits (h : (load env i).result = .ok m) : m.Fits env i := by
  obtain ⟨w, hw, h⟩ := Traced.bind_eq_ok.1 h
  obtain ⟨w', hw', h⟩ := Traced.bind_eq_ok.1 h
  obtain ⟨_, _, h⟩ := Traced.bind_eq_ok.1 h
  exact (pair_fits_iff h).2
    ⟨fun r hr => width_of_operandWidth hw hr, fun r hr => width_of_operandWidth hw' hr⟩

/-- A store takes the address at the width of a pointer, so it fits unless the address has
another. -/
theorem store_fits_iff (h : store env i = .ok m) :
    m.numOperands = i.numOperands ∧ (m.Fits env i ↔ ¬ env.OddAddress i) := by
  obtain ⟨w, hw, h⟩ := Fault.bind_eq_ok.1 h
  have hpair : valueAndAddress InstrMapping.defaultCost i (.vector w) (.vector pointerWidth) =
      .ok m := h
  exact ⟨numOperands_of_valueAndAddress hpair, pointer_fits_iff hw hpair⟩

/-! ## What the target offers

The rules are put together by opcode. In every case the map covers the instruction, also where it
does not fit. -/

/-- The target's own mapping covers the instruction, and fits but for the address of a store. This
is mapped at the width of a pointer whatever its register is, while all other slots are at the
widths of their registers. -/
theorem mapping_fits_iff (h : (gpu.mapping env i).result = .ok m) :
    m.numOperands = i.numOperands ∧
      (m.Fits env i ↔ ¬ (i.opcode = .store ∧ env.OddAddress i)) := by
  -- for any opcode but a store the right side is true
  have hother (hfits : m.Fits env i) (hop : i.opcode ≠ .store) : m.numOperands = i.numOperands ∧
      (m.Fits env i ↔ ¬ (i.opcode = .store ∧ env.OddAddress i)) :=
    ⟨hfits.covers, fun _ hstore => hop hstore.1, fun _ => hfits⟩
  change (mapping env i).result = .ok m at h
  unfold mapping at h
  cases hop : i.opcode with
  | constant =>
    simp only [hop, Opcode.rule?] at h
    exact hop ▸ hother (scalarDef_fits h) (by simp [hop])
  | gep =>
    simp only [hop, Opcode.rule?] at h
    exact hop ▸ hother (scalarRegs_fits h) (by simp [hop])
  | load =>
    simp only [hop, Opcode.rule?] at h
    exact hop ▸ hother (load_fits h) (by simp [hop])
  | store =>
    simp only [hop, Opcode.rule?] at h
    simpa using store_fits_iff h
  | _ =>
    simp only [hop, Opcode.rule?] at h
    obtain ⟨_, _, h⟩ := Traced.bind_eq_ok.1 h
    exact hop ▸ hother (fallback_fits h) (by simp [hop])

/-- Only a load has alternatives. They cover it, and fit but for its address. -/
theorem alternative_fits_iff {ms : List InstrMapping}
    (h : (gpu.alternatives env i).result = .ok ms) (hm : m ∈ ms) :
    i.opcode = .load ∧ m.numOperands = i.numOperands ∧ (m.Fits env i ↔ ¬ env.OddAddress i) := by
  change alternatives env i = .ok ms at h
  unfold alternatives at h
  split at h
  · next hload =>
    obtain ⟨w, hw, h⟩ := Fault.bind_eq_ok.1 h
    obtain ⟨⟨cost, valueBank, addressBank⟩, _, hpair⟩ := Fault.exists_of_mem_mapM h hm
    exact ⟨Opcode.hasAlternatives_iff.1 hload, numOperands_of_valueAndAddress hpair,
      pointer_fits_iff hw hpair⟩
  · cases h
    cases hm

/-- Every mapping that is possible covers its instruction. -/
theorem possible_covers {ms : List InstrMapping}
    (h : (gpu.possibleMappings env i).result = .ok ms) (hm : m ∈ ms) :
    m.numOperands = i.numOperands := by
  obtain ⟨own, hown, h⟩ := Traced.bind_eq_ok.1 h
  obtain ⟨later, hlater, h⟩ := Traced.bind_eq_ok.1 h
  cases h
  rcases List.mem_cons.1 hm with rfl | hm
  · exact (mapping_fits_iff hown).1
  · exact (alternative_fits_iff hlater hm).2.1

/-- Every mapping that is assigned in some mode covers its instruction: the modes only choose among
those that the target offers. -/
theorem assigned_covers {mode : Mode} {a : Assignment}
    (h : (gpu.assign env i mode).result = .ok a) (hm : m ∈ a.candidates) :
    m.numOperands = i.numOperands := by
  -- the target's own mapping is assigned alone
  have hsingle {x : Assignment} (hx : (Assignment.single <$> gpu.mapping env i).result = .ok x)
      (hmx : m ∈ x.candidates) : m.numOperands = i.numOperands := by
    obtain ⟨own, hown, hx⟩ := Traced.bind_eq_ok.1 hx
    cases hx
    rw [List.mem_singleton.1 hmx]
    exact (mapping_fits_iff hown).1
  cases mode with
  | fast => exact hsingle h hm
  | greedy =>
    obtain ⟨ms, hms, h⟩ := Traced.bind_eq_ok.1 h
    cases ms with
    | nil => exact hsingle h hm
    | cons first rest =>
      cases h
      exact (alternative_fits_iff hms hm).2.1

end Gpu

/-! ## What selection chooses

The greedy mode puts an alternative in the place of the target's own mapping at loads only, and
there the address is mapped at the width of a pointer. So what fits is settled by the opcode, the
address, and which of the two was taken. -/

namespace Selection

variable {mode : Mode} {env : Env} {banks : RegMap Bank} {i : Instr} {chosen : Priced}

/-- The mapping is one of the alternatives that the greedy mode weighs for a load. -/
def Alternative (mode : Mode) (env : Env) (i : Instr) (m : InstrMapping) : Prop :=
  mode = .greedy ∧ i.opcode = .load ∧ ∃ ms, (gpu.alternatives env i).result = .ok ms ∧ m ∈ ms

/-- The mapping chosen is the target's own or one of the alternatives. -/
theorem own_or_alternative (h : (choose gpu mode env banks i).result = .ok chosen) :
    (gpu.mapping env i).result = .ok chosen.mapping ∨ Alternative mode env i chosen.mapping := by
  cases mode with
  | fast => exact .inl (choose_fast_eq_ok h).1
  | greedy =>
    obtain ⟨own, later, hown, hlater, hcheapest⟩ := choose_greedy_eq_ok h
    rcases List.mem_cons.1 hcheapest.mem with heq | hmem
    · exact .inl (heq ▸ hown)
    · exact .inr ⟨rfl, (Gpu.alternative_fits_iff hlater hmem).1, later, hlater, hmem⟩

/-- The mapping that selection chooses does not fit exactly if the address is odd and the rule took
no notice of it. -/
theorem chosen_fits_iff (h : (choose gpu mode env banks i).result = .ok chosen) :
    chosen.mapping.Fits env i ↔
      ¬ (env.OddAddress i ∧ (i.opcode = .store ∨ Alternative mode env i chosen.mapping)) := by
  constructor
  · rintro hfits ⟨hodd, hstore | ⟨_, _, ms, hms, hmem⟩⟩
    · -- a store has no alternatives, so its mapping is the target's own
      obtain hown | ⟨_, hload, _⟩ := own_or_alternative h
      · exact (Gpu.mapping_fits_iff hown).2.1 hfits ⟨hstore, hodd⟩
      · cases hstore.symm.trans hload
    · exact (Gpu.alternative_fits_iff hms hmem).2.2.1 hfits hodd
  · intro hnot
    obtain hown | halternative := own_or_alternative h
    · exact (Gpu.mapping_fits_iff hown).2.2 fun ⟨hstore, hodd⟩ => hnot ⟨hodd, .inl hstore⟩
    · obtain ⟨_, _, ms, hms, hmem⟩ := id halternative
      exact (Gpu.alternative_fits_iff hms hmem).2.2.2 fun hodd => hnot ⟨hodd, .inr halternative⟩

/-- All mappings that the target offers cover their instruction. Where the widths of its registers
are known, verification accepts the target's own mapping unless the instruction is a store whose
address is a register of another width than a pointer, and an alternative of a load unless the
address is such a register; otherwise it rejects them. So in a selection, whatever the stream and the
mode, the mapping of an instruction is accepted unless the instruction has such an address and is a
store, or a load with one of the alternatives chosen by the greedy mode. -/
theorem run_fits :
    (∀ (env : Env) (i : Instr), env.KnowsWidths i →
      (∀ ms, (gpu.possibleMappings env i).result = .ok ms →
        ∀ m ∈ ms, m.numOperands = i.numOperands) ∧
      (∀ mode a, (gpu.assign env i mode).result = .ok a →
        ∀ m ∈ a.candidates, m.numOperands = i.numOperands) ∧
      (∀ m, (gpu.mapping env i).result = .ok m → ∃ fits, m.verify env i = .ok fits ∧
        (fits = true ↔ ¬ (i.opcode = .store ∧ env.OddAddress i))) ∧
      ∀ ms, (gpu.alternatives env i).result = .ok ms → ∀ m ∈ ms,
        i.opcode = .load ∧ ∃ fits, m.verify env i = .ok fits ∧
          (fits = true ↔ ¬ env.OddAddress i)) ∧
    ∀ (mode : Mode) (env : Env) (instrs : List Instr) (s : Selection),
      (run gpu mode env instrs).result = .ok s →
      ∀ (j : Nat) (i : Instr) (c : Choice), instrs[j]? = some i → s.choices[j]? = some c →
        (c.mapping.verify env i = .ok true ↔
          ¬ (env.OddAddress i ∧ (i.opcode = .store ∨ Alternative mode env i c.mapping))) := by
  -- the answer of verification is known if it is known when it is yes
  have hanswer {env : Env} {i : Instr} (hwidths : env.KnowsWidths i) (m : InstrMapping) :
      ∃ fits, m.verify env i = .ok fits ∧ (fits = true ↔ m.Fits env i) := by
    obtain ⟨fits, hfits⟩ := InstrMapping.verify_answers hwidths m
    refine ⟨fits, hfits, ?_⟩
    rw [← InstrMapping.verify_eq_true_iff, hfits, Except.ok.injEq]
  refine ⟨fun env i hwidths => ⟨?_, ?_, ?_, ?_⟩, ?_⟩
  · exact fun ms hms m hm => Gpu.possible_covers hms hm
  · exact fun mode a ha m hm => Gpu.assigned_covers ha hm
  · intro m hm
    obtain ⟨fits, hfits, hiff⟩ := hanswer hwidths m
    exact ⟨fits, hfits, hiff.trans (Gpu.mapping_fits_iff hm).2⟩
  · intro ms hms m hm
    obtain ⟨hload, _, hodd⟩ := Gpu.alternative_fits_iff hms hm
    obtain ⟨fits, hfits, hiff⟩ := hanswer hwidths m
    exact ⟨hload, fits, hfits, hiff.trans hodd⟩
  · intro mode env instrs s hs j i c hi hc
    obtain ⟨earlier, chosen, _, _, later, _, hchosen, _, _, hlength, rfl⟩ := run_at hs hi
    rw [List.getElem?_append_right (Nat.le_of_eq hlength), hlength, Nat.sub_self] at hc
    cases hc
    exact InstrMapping.verify_eq_true_iff.trans (chosen_fits_iff hchosen)

/-- A load whose address has 32 bits and lives in the scalar bank: the target's own mapping is
accepted, and the alternative that the greedy mode chooses is not. -/
theorem run_fits_load :
    let env : Env := ⟨fun _ => some 32, fun r => if r = ⟨0⟩ then some .sreg32 else none,
      fun _ => false⟩
    let i : Instr := ⟨.load, [.reg ⟨1⟩, .reg ⟨0⟩], 1, [.divergent], by decide⟩
    ∃ own s c, (gpu.mapping env i).result = .ok own ∧ own.verify env i = .ok true ∧
      (run gpu .greedy env [i]).result = .ok s ∧ s.choices = [c] ∧
      Alternative .greedy env i c.mapping ∧ ¬ c.mapping.verify env i = .ok true := by
  intro env i
  obtain ⟨hoffered, hchosen⟩ := run_fits
  obtain ⟨_, _, hown, _⟩ := hoffered env i fun _ _ => ⟨32, rfl⟩
  obtain ⟨fits, hfits, hiff⟩ := hown _ rfl
  have hodd : env.OddAddress i := ⟨⟨0⟩, rfl, by decide⟩
  have hload : ¬ (i.opcode = .store ∧ env.OddAddress i) := fun ⟨hstore, _⟩ => nomatch hstore
  have halternative : Alternative .greedy env i (Gpu.pair 1 i (.scalar 32) (.scalar 64)) :=
    ⟨rfl, rfl, _, rfl, List.mem_cons_self⟩
  refine ⟨_, _, _, rfl, (hiff.2 hload) ▸ hfits, rfl, rfl, halternative, ?_⟩
  exact fun haccepted => (hchosen .greedy env [i] _ rfl 0 i _ rfl rfl).1 haccepted
    ⟨hodd, .inr halternative⟩

end Selection

end Lowering
