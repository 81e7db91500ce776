import Lowering.Proofs.ModeTotals
import Lowering.Proofs.PaidCopies
import Lowering.Proofs.Queries

/-!
# Lowering — one bank for each instruction

On the target with scalar and vector registers, only one mapping puts the operands of an instruction
in different banks: the last alternative of a load, with a vector value at a scalar address. It is
never chosen, since the first alternative costs two less and needs one copy more at the most
(`Gpu.choose_inOneBank`).

Where all demands of an instruction are for one bank, a register that one of them settles is not
copied for another. So the copies that are recorded are those that the price counts
(`Selection.length_settle`), and the price of a choice is the cost of its mapping with the number of
its copies, for each instruction and for the stream (`Selection.run_inOneBank`).
-/

namespace Lowering

/-! ## Maps for one bank

A map is in a bank if every entry asks for that bank. Rules build maps by setting entries, so a map
stays in a bank as long as the entries are. -/

namespace OperandMap

/-- Every demand of the map is for the bank, also one on an operand that is no register. -/
def InBank (m : OperandMap) (b : Bank) : Prop :=
  ∀ v, some v ∈ m.entries → v.bank = b

variable {m m' : OperandMap} {b : Bank} {v : ValueMapping}

theorem absent_inBank (n : Nat) (b : Bank) : (absent n).InBank b := by
  intro v hv
  cases List.eq_of_mem_replicate hv

theorem InBank.setEntry (h : m.InBank b) (k : Nat) (hv : v.bank = b) :
    InBank ⟨m.entries.set k (some v)⟩ b := by
  intro w hw
  cases List.mem_or_eq_of_mem_set hw with
  | inl hmem => exact h w hmem
  | inr heq =>
    cases heq
    exact hv

/-- The same, where the entry is set by a rule. -/
theorem InBank.set (h : m.InBank b) {k : Nat} (hv : v.bank = b) (hset : m.set k v = .ok m') :
    m'.InBank b := by
  have hm' := (set_eq_ok_iff.1 hset).2
  rw [hm']
  exact h.setEntry k hv

theorem InBank.bank_of_get? (h : m.InBank b) {k : Nat} (hget : m.get? k = some v) : v.bank = b := by
  apply h
  apply List.mem_of_getElem?
  exact Option.join_eq_some_iff.1 hget

end OperandMap

/-- All demands of the mapping are for one bank. -/
def InstrMapping.InOneBank (m : InstrMapping) : Prop :=
  ∃ b, m.operands.InBank b

/-! ## The mappings of the target

Four of the five ways to map an instruction ask for one bank from the outset, whichever it is. The
alternatives of a load are the exception, and it is settled by their prices. -/

namespace Gpu

open Selection

variable {env : Env} {banks : RegMap Bank} {i : Instr} {m : InstrMapping}

/-- A map in one bank makes a mapping in one bank. -/
theorem cover_inOneBank {cost : Nat} {operands : OperandMap} {b : Bank}
    (hops : operands.InBank b) (h : cover cost i operands = .ok m) :
    m.cost = cost ∧ m.InOneBank := by
  have hm := (InstrMapping.covering_eq_ok_iff.1 h).2
  rw [hm]
  exact ⟨rfl, b, hops⟩

theorem scalarDef_inOneBank (h : scalarDef env i = .ok m) :
    m.cost = InstrMapping.defaultCost ∧ m.InOneBank := by
  obtain ⟨width, _, h⟩ := Fault.bind_eq_ok.1 h
  obtain ⟨operands, hset, h⟩ := Fault.bind_eq_ok.1 h
  have hops : operands.InBank .scalar :=
    (OperandMap.absent_inBank i.numOperands .scalar).set rfl hset
  exact cover_inOneBank hops h

/-- Scalar demands are set one after the other, over any map that is scalar so far. Induction on the
registers that are left. -/
theorem foldlM_setScalar_inBank {slots : List (Nat × Reg)} {start operands : OperandMap}
    (hstart : start.InBank .scalar) (h : slots.foldlM (setScalar env) start = .ok operands) :
    operands.InBank .scalar := by
  induction slots generalizing start with
  | nil =>
    cases h
    exact hstart
  | cons slot slots ih =>
    rw [List.foldlM_cons] at h
    obtain ⟨next, hnext, hrest⟩ := Fault.bind_eq_ok.1 h
    obtain ⟨w, _, _, rfl⟩ := setScalar_eq_ok_iff.1 hnext
    exact ih (hstart.setEntry slot.1 rfl) hrest

theorem scalarRegs_inOneBank (h : scalarRegs env i = .ok m) :
    m.cost = InstrMapping.defaultCost ∧ m.InOneBank := by
  obtain ⟨operands, hfold, h⟩ := Fault.bind_eq_ok.1 h
  have hops : operands.InBank .scalar :=
    foldlM_setScalar_inBank (OperandMap.absent_inBank i.numOperands .scalar) hfold
  exact cover_inOneBank hops h

theorem pair_inBank {cost : Nat} {x y : ValueMapping} {b : Bank} (hx : x.bank = b)
    (hy : y.bank = b) : (pair cost i x y).operands.InBank b :=
  ((OperandMap.absent_inBank i.numOperands b).setEntry 0 hx).setEntry 1 hy

theorem store_inOneBank (h : store env i = .ok m) :
    m.cost = InstrMapping.defaultCost ∧ m.InOneBank := by
  obtain ⟨width, _, h⟩ := Fault.bind_eq_ok.1 h
  have hm : m = pair InstrMapping.defaultCost i (.vector width) (.vector pointerWidth) :=
    (valueAndAddress_eq_ok_iff.1 h).2
  rw [hm]
  exact ⟨rfl, .vector, pair_inBank rfl rfl⟩

/-- A row of running widths is scalar throughout. Induction on the row. -/
theorem runningWidths_inBank {width : UInt32} {ops : List Operand}
    {entries : List (Option ValueMapping)} (h : runningWidths env width ops = .ok entries) :
    OperandMap.InBank ⟨entries⟩ .scalar := by
  induction ops generalizing width entries with
  | nil =>
    cases h
    exact fun v hv => nomatch hv
  | cons op ops ih =>
    obtain ⟨width', later, _, hlater, rfl⟩ := runningWidths_cons_eq_ok_iff.1 h
    intro v hv
    cases List.mem_cons.1 hv with
    | inl heq =>
      cases heq
      rfl
    | inr hmem => exact ih hlater v hmem

/-- An instruction without a rule is scalar. -/
theorem fallback_inOneBank (h : fallback env i = .ok m) :
    m.cost = InstrMapping.defaultCost ∧ m.InOneBank := by
  obtain ⟨entries, hentries, h⟩ := Fault.bind_eq_ok.1 h
  exact cover_inOneBank (runningWidths_inBank hentries) h

/-- What the target itself would pick lies in one bank, whatever the instruction. -/
theorem mapping_inOneBank (h : (gpu.mapping env i).result = .ok m) :
    m.cost = InstrMapping.defaultCost ∧ m.InOneBank := by
  change (mapping env i).result = .ok m at h
  unfold mapping at h
  split at h
  · exact scalarDef_inOneBank h
  · exact scalarRegs_inOneBank h
  · exact store_inOneBank h
  · obtain ⟨v, a, wv, wa, _, _, rfl⟩ := load_eq_ok h
    exact ⟨rfl, loadBank env i, pair_inBank rfl rfl⟩
  · obtain ⟨_, _, h⟩ := Traced.bind_eq_ok.1 h
    exact fallback_inOneBank h

/-- A vector value at a scalar address costs more than all scalar, which saves two and can only lose
the copy of the value. -/
theorem not_cheapest_mixed {v a : Reg} {w w' : UInt32} {ms : List InstrMapping} {total : Nat}
    (hv : i.operands[0]? = some (.reg v)) (ha : i.operands[1]? = some (.reg a))
    (hscalar : pair 1 i ⟨.scalar, w⟩ ⟨.scalar, w'⟩ ∈ ms) :
    ¬ FirstCheapest gpu banks i ms (pair 3 i ⟨.vector, w⟩ ⟨.scalar, w'⟩) total := by
  intro hcheapest
  obtain ⟨p, hp, hle⟩ := hcheapest.le hscalar
  have hmixed := hcheapest.isPrice.eq_misplaced copyCost_gpu
  have hall := hp.eq_misplaced copyCost_gpu
  rw [countP_misplaced_pair hv ha] at hmixed hall
  have hcopy := copies_le_one banks[v]? .scalar
  simp only [pair] at hmixed hall
  omega

/-- The choice for an instruction lies in one bank, from whatever banks the registers live in. -/
theorem choose_inOneBank {mode : Mode} {chosen : Priced}
    (h : (choose gpu mode env banks i).result = .ok chosen) :
    chosen.mapping.cost < 3 ∧ chosen.mapping.InOneBank := by
  -- the target's own mapping is in one bank, whichever mode comes to it
  have hown : ∀ own, (gpu.mapping env i).result = .ok own → own.cost < 3 ∧ own.InOneBank := by
    intro own hmapping
    obtain ⟨hcost, hbank⟩ := mapping_inOneBank hmapping
    exact ⟨hcost ▸ (by decide), hbank⟩
  cases mode with
  | fast => exact hown _ (choose_fast_eq_ok h).1
  | greedy =>
    obtain ⟨own, later, hmapping, hlater, hcheapest⟩ := choose_greedy_eq_ok h
    cases List.mem_cons.1 hcheapest.mem with
    | inl heq =>
      rw [heq]
      exact hown own hmapping
    | inr hmem =>
      obtain rfl | ⟨hload, w, rfl⟩ := alternatives_eq_ok hlater
      · cases hmem
      · rw [mapping_of_load hload] at hmapping
        obtain ⟨v, a, _, _, hv, ha, _⟩ := load_eq_ok hmapping
        simp only [loadChoices, List.map_cons, List.map_nil, List.mem_cons, List.not_mem_nil,
          or_false] at hmem
        -- all scalar, all vector, or a vector value at a scalar address
        obtain heq | heq | heq := hmem
        · rw [heq]
          exact ⟨(by decide : 1 < 3), .scalar, pair_inBank rfl rfl⟩
        · rw [heq]
          exact ⟨(by decide : 2 < 3), .vector, pair_inBank rfl rfl⟩
        · rw [heq] at hcheapest
          exact absurd hcheapest
            (not_cheapest_mixed hv ha (List.mem_cons_of_mem own List.mem_cons_self))

end Gpu

namespace Selection

variable {t : Target} {mode : Mode} {env : Env} {banks mid : RegMap Bank} {i : Instr} {k : Nat}

/-! ## Copies and prices

The price of a mapping counts the registers that live elsewhere before the instruction; the copies
are made while registers settle. With demands for two banks the counts can differ, because a
register that settles for the first demand is misplaced for the second. -/

/-- A register that settles where it is demanded is as misplaced for other demands on that bank as
before. -/
theorem misplaced_insert {r : Reg} {d : Demand} (hr : banks[r]? = none) :
    misplaced (banks.insert r d.value.bank) d = misplaced banks d := by
  unfold misplaced
  rw [RegMap.getElem?_insert]
  by_cases hreg : r = d.reg
  · rw [if_pos hreg, ← hreg, hr]
    simp
  · rw [if_neg hreg]

/-- Where all demands are for one bank, the copies are those of the registers that lived elsewhere
before the first of them was met. -/
theorem length_settle {b : Bank} {ds : List Demand} {rs : List Repair}
    (hds : ∀ d ∈ ds, d.value.bank = b)
    (h : (settle t k banks ds).result = .ok (rs, mid)) :
    rs.length = ds.countP (misplaced banks) := by
  induction ds generalizing banks rs with
  | nil =>
    cases h
    rfl
  | cons d ds ih =>
    have hrest : ∀ e ∈ ds, e.value.bank = b := fun e he => hds e (List.mem_cons_of_mem d he)
    have hd : d.value.bank = b := hds d List.mem_cons_self
    obtain ⟨hnone, hlater⟩ | ⟨hstay, hlater⟩ | ⟨x, cost, rs', hx, hne, _, hlater, rfl⟩ :=
      settle_cons_eq_ok.1 h
    · -- the register settles in the bank that all of the demands are for
      have hsame : ∀ e ∈ ds, misplaced (banks.insert d.reg d.value.bank) e = misplaced banks e := by
        intro e he
        rw [hd, ← hrest e he]
        exact misplaced_insert hnone
      rw [ih hrest hlater, List.countP_cons_of_neg (by simp [misplaced, hnone])]
      apply List.countP_congr
      intro e he
      rw [hsame e he]
    · rw [ih hrest hlater, List.countP_cons_of_neg (by simp [misplaced, hstay])]
    · rw [List.length_cons, ih hrest hlater, List.countP_cons_of_pos (by simp [misplaced, hx, hne])]

/-- The price of a choice is the cost of its mapping with the number of its copies. -/
theorem total_eq_length {chosen : Priced} {rs : List Repair}
    (hchosen : (choose gpu mode env banks i).result = .ok chosen)
    (hsettle : (settle gpu k banks (chosen.mapping.demands i)).result = .ok (rs, mid)) :
    chosen.total = chosen.mapping.cost + rs.length := by
  obtain ⟨_, b, hbank⟩ := Gpu.choose_inOneBank hchosen
  have hdemands : ∀ d ∈ chosen.mapping.demands i, d.value.bank = b := by
    intro d hd
    exact hbank.bank_of_get? (InstrMapping.mem_demands.1 hd).2
  obtain ⟨ms, _, hcheapest⟩ := choose_eq_ok hchosen
  rw [hcheapest.isPrice.eq_misplaced Gpu.copyCost_gpu, length_settle hdemands hsettle]

/-! ## The stream

The instructions are summed up: what was spent is what the mappings cost and one for each copy. -/

/-- A choice carries the number of its instruction, which is its place among the choices. So it can
be found again from a copy or a choice alone. -/
theorem choice_at {instrs : List Instr} {s : Selection}
    (h : (run t mode env instrs).result = .ok s) {c : Choice} (hc : c ∈ s.choices) :
    s.choices[c.instr]? = some c ∧ ∃ i, instrs[c.instr]? = some i := by
  obtain ⟨start, _, hwalk⟩ := run_eq_ok.1 h
  have hnumbers := (walk_eq_ok hwalk).1
  obtain ⟨j, hj⟩ := List.mem_iff_getElem?.1 hc
  have hnumber : (List.range' 0 instrs.length)[j]? = some c.instr := by
    rw [← hnumbers, List.getElem?_map, hj]
    rfl
  obtain ⟨hlt, heq⟩ := List.getElem?_eq_some_iff.1 hnumber
  rw [List.length_range'] at hlt
  rw [List.getElem_range', Nat.zero_add, Nat.one_mul] at heq
  rw [← heq]
  exact ⟨hj, _, List.getElem?_eq_getElem hlt⟩

/-- What the choices cost together is what their mappings cost, and one for each copy. Induction on
the stream. -/
theorem walk_spent {is : List Instr} {s : Selection}
    (h : (walk gpu mode env k banks is).result = .ok s) :
    s.spent = Cost.amount (s.choices.map fun c => c.mapping.cost) + s.repairs.length := by
  induction is generalizing k banks s with
  | nil =>
    cases h
    rfl
  | cons i is ih =>
    obtain ⟨chosen, rs, mid, later, hchosen, hsettle, hlater, rfl⟩ := walk_cons_eq_ok.1 h
    have hown := total_eq_length hchosen hsettle
    have hrest := ih hlater
    simp only [spent, List.map_cons, Cost.amount_cons, List.length_append] at hrest ⊢
    omega

/-- Every mapping that is chosen has all its demands in one bank, and is never the dearest
alternative of a load. So the price of a choice is the cost of its mapping with the number of its
copies, and the selection costs what its mappings cost with the number of all copies, if that is a
cost. -/
theorem run_inOneBank {instrs : List Instr} {s : Selection}
    (h : (run gpu mode env instrs).result = .ok s) :
    (∀ c ∈ s.choices, c.mapping.InOneBank ∧ c.mapping.cost < 3 ∧
        c.total = c.mapping.cost + (s.repairsAt c.instr).length) ∧
      ∀ total, s.totalCost = .ok total ↔
        total = Cost.amount (s.choices.map fun c => c.mapping.cost) + s.repairs.length ∧
          total < Cost.bound := by
  constructor
  · intro c hc
    obtain ⟨hat, i, hi⟩ := choice_at h hc
    obtain ⟨earlier, c', mid, hc', _, hchosen, hsettle⟩ := settle_at h hi
    cases hat.symm.trans hc'
    obtain ⟨hcost, hbank⟩ := Gpu.choose_inOneBank hchosen
    exact ⟨hbank, hcost, total_eq_length hchosen hsettle⟩
  · intro total
    obtain ⟨start, _, hwalk⟩ := run_eq_ok.1 h
    rw [← walk_spent hwalk]
    exact Cost.sum_eq_ok_iff

/-- A load from a scalar address to a vector register: only the dearest alternative would do without
a copy, and it is not chosen. -/
theorem run_inOneBank_load :
    let env : Env := ⟨fun r => if r = ⟨1⟩ then some 32 else some 64,
      fun r => if r = ⟨0⟩ then some .sreg64 else some .vgpr32, fun _ => false⟩
    let instrs : List Instr := [⟨.load, [.reg ⟨1⟩, .reg ⟨0⟩], 1, [.divergent], by decide⟩]
    ∃ s c, (run gpu .greedy env instrs).result = .ok s ∧ s.choices = [c] ∧ c.mapping.InOneBank ∧
      c.total = c.mapping.cost + (s.repairsAt 0).length ∧ s.totalCost = .ok 2 ∧
      s.repairs.length = 1 := by
  intro env instrs
  obtain ⟨hchoices, htotal⟩ :=
    run_inOneBank (show (run gpu .greedy env instrs).result = .ok _ from rfl)
  obtain ⟨hbank, _, hpaid⟩ := hchoices _ List.mem_cons_self
  exact ⟨_, _, rfl, rfl, hbank, hpaid, (htotal 2).2 ⟨rfl, by decide⟩, rfl⟩

end Selection

end Lowering
