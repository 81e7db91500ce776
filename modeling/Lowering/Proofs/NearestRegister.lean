import Lowering.Proofs.Queries

/-!
# Lowering — the widths of an instruction without a rule

An instruction without a rule is mapped by a width that runs over its operands from the left: a
register takes its own, anything else that of the register before it, and the width is 0 up to the
first register.

* `NearestReg` — the register that stands last up to a slot; there is only one.
* `Gpu.getElem?_runningWidths` — from whatever width a row starts, each slot is demanded at the
  width of its nearest register, or at that of the start.
* `Gpu.runningWidths_congr` — the demands depend on nothing but the registers, their slots and their
  widths.
* `Gpu.mapping_fallback` — so does the mapping of an instruction without a rule, which costs 1 and
  demands every operand in the scalar bank.
-/

namespace Lowering

/-- Slot `j` holds register `r`, and no slot behind it up to `k` holds a register. -/
structure NearestReg (ops : List Operand) (k j : Nat) (r : Reg) : Prop where
  le : j ≤ k
  reg : ops[j]? = some (.reg r)
  last : ∀ n, j < n → n ≤ k → ∀ s, ops[n]? ≠ some (.reg s)

/-- No slot up to `k` holds a register. -/
def NoReg (ops : List Operand) (k : Nat) : Prop :=
  ∀ n ≤ k, ∀ s, ops[n]? ≠ some (.reg s)

namespace NearestReg

variable {op : Operand} {ops : List Operand} {k j j' : Nat} {r r' : Reg}

/-- Of two nearest registers neither stands behind the other: each would be a register behind the
other one. -/
theorem slot_le (h : NearestReg ops k j r) (h' : NearestReg ops k j' r') : j' ≤ j :=
  Nat.le_of_not_lt fun hlt => h.last j' hlt h'.le r' h'.reg

theorem unique (h : NearestReg ops k j r) (h' : NearestReg ops k j' r') : r = r' := by
  obtain rfl : j = j' := Nat.le_antisymm (h'.slot_le h) (h.slot_le h')
  have hop := h.reg.symm.trans h'.reg
  rw [Option.some_inj, Operand.reg.injEq] at hop
  exact hop

theorem not_noReg (h : NearestReg ops k j r) : ¬NoReg ops k :=
  fun hnone => hnone j h.le r h.reg

/-- With one more operand in front, every slot is one further along, and the nearest register with
it. -/
theorem cons (h : NearestReg ops k j r) (op : Operand) :
    NearestReg (op :: ops) (k + 1) (j + 1) r := by
  refine ⟨Nat.succ_le_succ h.le, h.reg, ?_⟩
  intro n hj hk
  obtain ⟨n, rfl⟩ := Nat.exists_eq_add_one.2 (Nat.zero_lt_of_lt hj)
  exact h.last n (Nat.lt_of_succ_lt_succ hj) (Nat.le_of_succ_le_succ hk)

/-- A register is the nearest one in its own slot. -/
theorem own (hr : ops[k]? = some (.reg r)) : NearestReg ops k k r :=
  ⟨Nat.le_refl k, hr, fun _ hlt hle => absurd hle (Nat.not_le.2 hlt)⟩

/-- A register is the nearest one in the slots behind it, up to the next register. -/
theorem head (h : NoReg ops k) (r : Reg) : NearestReg (.reg r :: ops) (k + 1) 0 r := by
  refine ⟨Nat.zero_le _, rfl, ?_⟩
  intro n hn hk
  obtain ⟨n, rfl⟩ := Nat.exists_eq_add_one.2 hn
  exact h n (Nat.le_of_succ_le_succ hk)

end NearestReg

namespace NoReg

variable {op : Operand} {ops : List Operand} {k : Nat}

theorem zero (hop : op.reg? = none) : NoReg (op :: ops) 0 := by
  intro n hn s hs
  obtain rfl : n = 0 := Nat.le_zero.1 hn
  obtain rfl : op = .reg s := Option.some_inj.1 hs
  cases hop

/-- One more operand that is no register leaves the slots behind it without one. -/
theorem cons (h : NoReg ops k) (hop : op.reg? = none) : NoReg (op :: ops) (k + 1) := by
  intro n hn s hs
  cases n with
  | zero => exact zero hop 0 (Nat.le_refl 0) s hs
  | succ n => exact h n (Nat.le_of_succ_le_succ hn) s hs

end NoReg

namespace Gpu

variable {env env' : Env} {i i' : Instr} {op : Operand} {ops ops' : List Operand}
  {start width w : UInt32} {entries : List (Option ValueMapping)} {j k : Nat} {r : Reg}

/-! ## The width at a slot

The width that runs along a row is told by what stands to the left. `Gpu.WidthUpTo` says it of a
slot without running along the row, and the two lemmas on its constructors, `head` and `cons`, are
the two cases of a row. -/

/-- The width behind an operand is its own if it is a register, and the one before it otherwise. -/
theorem widthBehind_cases (h : widthBehind env start op = some w) :
    (∃ r, op = .reg r ∧ env.width r = some w) ∨ (op.reg? = none ∧ w = start) := by
  unfold widthBehind at h
  cases hreg : op.reg? with
  | none =>
    rw [hreg] at h
    exact .inr ⟨rfl, (Option.some_inj.1 h).symm⟩
  | some r =>
    rw [hreg] at h
    exact .inl ⟨r, Operand.reg?_eq_some_iff.1 hreg, h⟩

/-- Width `w` is that of the register nearest to slot `k`, or the one that the row starts with. -/
def WidthUpTo (env : Env) (start : UInt32) (ops : List Operand) (k : Nat) (w : UInt32) : Prop :=
  (∃ j r, NearestReg ops k j r ∧ env.width r = some w) ∨ (NoReg ops k ∧ w = start)

namespace WidthUpTo

/-- The width at the first operand of a row is the one behind it. -/
theorem head (hop : widthBehind env start op = some w) (ops : List Operand) :
    WidthUpTo env start (op :: ops) 0 w := by
  obtain ⟨r, rfl, hw⟩ | ⟨hreg, rfl⟩ := widthBehind_cases hop
  · exact .inl ⟨0, r, .own rfl, hw⟩
  · exact .inr ⟨.zero hreg, rfl⟩

/-- The width with which the rest of a row starts is the one behind its first operand. -/
theorem cons (hop : widthBehind env start op = some width) (h : WidthUpTo env width ops k w) :
    WidthUpTo env start (op :: ops) (k + 1) w := by
  obtain ⟨j, r, hnearest, hw⟩ | ⟨hnone, rfl⟩ := h
  · exact .inl ⟨j + 1, r, hnearest.cons op, hw⟩
  · obtain ⟨r, rfl, hw⟩ | ⟨hreg, rfl⟩ := widthBehind_cases hop
    · exact .inl ⟨0, r, .head hnone r, hw⟩
    · exact .inr ⟨hnone.cons hreg, rfl⟩

/-- Where there is a nearest register, the width is that of it. -/
theorem width_eq (h : WidthUpTo env start ops k w) (hnearest : NearestReg ops k j r) :
    env.width r = some w := by
  obtain ⟨j', r', hnearest', hw⟩ | ⟨hnone, _⟩ := h
  · rwa [hnearest.unique hnearest']
  · exact absurd hnone hnearest.not_noReg

/-- Where there is none, the width is the one that the row starts with. -/
theorem eq_start (h : WidthUpTo env start ops k w) (hnone : NoReg ops k) : w = start := by
  obtain ⟨j, r, hnearest, _⟩ | ⟨_, hw⟩ := h
  · exact absurd hnone hnearest.not_noReg
  · exact hw

/-- There is one such width, so demands at it are determined by the row. -/
theorem iff_eq (h : WidthUpTo env start ops k w) (w' : UInt32) :
    WidthUpTo env start ops k w' ↔ w' = w := by
  constructor
  · rintro (⟨j, r, hnearest, hw⟩ | ⟨hnone, rfl⟩)
    · exact Option.some_inj.1 (hw.symm.trans (h.width_eq hnearest))
    · exact (h.eq_start hnone).symm
  · rintro rfl
    exact h

end WidthUpTo

/-- The demand on a slot, whatever width the row starts with. Induction on the row: behind its first
operand it starts with another width. -/
theorem getElem?_runningWidths (h : runningWidths env start ops = .ok entries)
    (hk : k < ops.length) :
    ∃ w, entries[k]? = some (some (.scalar w)) ∧ WidthUpTo env start ops k w := by
  induction ops generalizing start entries k with
  | nil => cases hk
  | cons op ops ih =>
    obtain ⟨width, later, hwidth, hlater, rfl⟩ := runningWidths_cons_eq_ok_iff.1 h
    cases k with
    | zero => exact ⟨width, rfl, .head hwidth ops⟩
    | succ k =>
      obtain ⟨w, hentry, hw⟩ := ih hlater (Nat.lt_of_succ_lt_succ hk)
      exact ⟨w, hentry, hw.cons hwidth⟩

/-! ## What the demands do not depend on

An operand that is no register has a width only by way of the register before it, so two rows may
differ in all their other operands. -/

/-- Rows with the same registers in the same slots, at the same widths, have the same demands.
Induction on the row, for every width that it may start with. -/
theorem runningWidths_congr (hregs : ops'.map Operand.reg? = ops.map Operand.reg?)
    (hwidths : ∀ r, .reg r ∈ ops → env'.width r = env.width r) (start : UInt32) :
    runningWidths env' start ops' = runningWidths env start ops := by
  induction ops generalizing ops' start with
  | nil =>
    obtain rfl := List.map_eq_nil_iff.1 hregs
    rfl
  | cons op ops ih =>
    obtain ⟨op', ops', rfl, hop, hrest⟩ := List.map_eq_cons_iff.1 hregs
    have hlater := ih hrest fun r hr => hwidths r (List.mem_cons_of_mem op hr)
    rw [runningWidths, runningWidths, hop]
    cases hreg : op.reg? with
    | none => simp only [hlater]
    | some r =>
      have hmem : .reg r ∈ op :: ops := by
        rw [Operand.reg?_eq_some_iff.1 hreg]
        exact List.mem_cons_self
      have hresolve : env'.resolveWidth r = env.resolveWidth r := by
        unfold Env.resolveWidth
        rw [hwidths r hmem]
      simp only [hresolve, hlater]

/-! ## The mapping

The fallback asks nothing of an instruction but its operands, so neither the opcode nor the accesses
are in its mapping. -/

/-- An instruction without a rule gets the fallback. What is logged about it is no part of the
result. -/
theorem result_mapping_of_fallback (hrule : i.opcode.rule? = none) :
    (gpu.mapping env i).result = fallback env i := by
  change (mapping env i).result = _
  unfold mapping
  rw [hrule]
  rfl

/-- The fallback has a mapping exactly where the row has its widths, and it covers all operands
because the row does. -/
theorem fallback_eq_ok_iff {m : InstrMapping} :
    fallback env i = .ok m ↔
      ∃ entries, runningWidths env 0 i.operands = .ok entries ∧ m = ⟨1, hint, ⟨entries⟩⟩ := by
  unfold fallback
  rw [Fault.bind_eq_ok]
  refine exists_congr fun entries => and_congr_right fun hentries => ?_
  exact InstrMapping.covering_eq_ok_iff.trans (and_iff_right (length_runningWidths hentries))

/-- An instruction without a rule has a mapping if its registers have known widths. It costs 1, it
demands every operand in the scalar bank at the width of its nearest register, 0 if there is none,
and it is the mapping of every instruction without a rule that has these registers in these slots,
wherever they have these widths. -/
theorem mapping_fallback (hrule : i.opcode.rule? = none) (hknown : env.KnowsWidths i) :
    ∃ m, (gpu.mapping env i).result = .ok m ∧ m.cost = 1 ∧ m.numOperands = i.numOperands ∧
      (∀ k < i.numOperands, ∃ w, m.operands.get? k = some (.scalar w) ∧
        ∀ w', WidthUpTo env 0 i.operands k w' ↔ w' = w) ∧
      ∀ env' i', i'.opcode.rule? = none →
        i'.operands.map Operand.reg? = i.operands.map Operand.reg? →
        (∀ r ∈ i.regs, env'.width r = env.width r) → (gpu.mapping env' i').result = .ok m := by
  obtain ⟨m, hm⟩ := fallback_answers_iff.2 hknown
  obtain ⟨entries, hentries, rfl⟩ := fallback_eq_ok_iff.1 hm
  have hsize : entries.length = i.operands.length := length_runningWidths hentries
  refine ⟨_, (result_mapping_of_fallback hrule).trans hm, rfl, hsize, ?_, ?_⟩
  · intro k hk
    obtain ⟨w, hentry, hw⟩ := getElem?_runningWidths hentries hk
    exact ⟨w, congrArg Option.join hentry, hw.iff_eq⟩
  · intro env' i' hrule' hregs hwidths
    rw [result_mapping_of_fallback hrule', fallback_eq_ok_iff]
    have hrow := runningWidths_congr hregs (fun r hr => hwidths r (Instr.mem_regs.2 hr)) 0
    exact ⟨entries, hrow.trans hentries, rfl⟩

/-- The constant before the first register is demanded at width 0, the symbol behind it at the width
of that register. Another opcode without a rule, other constants, another symbol and no access
change nothing. -/
theorem mapping_fallback_mixed :
    let env : Env := ⟨fun r => some (if r.index = 6 then 64 else 32), fun _ => none, fun _ => false⟩
    let i := (Instr.ofOperands .intrinsic
      [.imm 5, .reg ⟨6⟩, .symbol "readfirstlane", .reg ⟨5⟩, .imm 3]).withAccess .uniform
    let i' := Instr.ofOperands .add [.symbol "lane", .reg ⟨6⟩, .imm 0, .reg ⟨5⟩, .imm 0]
    ∃ m, (gpu.mapping env i).result = .ok m ∧
      m.operands.get? 0 = some (.scalar 0) ∧ m.operands.get? 2 = some (.scalar 64) ∧
      (gpu.mapping (env.withUniform true) i').result = .ok m := by
  intro env i i'
  obtain ⟨m, hm, _, _, hslots, hsame⟩ :=
    mapping_fallback (rfl : i.opcode.rule? = none) (fun r _ => ⟨_, rfl⟩ : env.KnowsWidths i)
  obtain ⟨w, hfirst, hw⟩ := hslots 0 (by decide)
  obtain ⟨w', hbehind, hw'⟩ := hslots 2 (by decide)
  have hnone : NoReg i.operands 0 := .zero rfl
  have hnearest : NearestReg i.operands 2 1 ⟨6⟩ := (NearestReg.head (.zero rfl) ⟨6⟩).cons _
  obtain rfl := (hw 0).1 (.inr ⟨hnone, rfl⟩)
  obtain rfl := (hw' 64).1 (.inl ⟨1, ⟨6⟩, hnearest, rfl⟩)
  exact ⟨m, hm, hfirst, hbehind, hsame _ i' rfl rfl fun _ _ => rfl⟩

end Gpu

end Lowering
