import Lowering.Proofs.Choices
import Lowering.Proofs.Repairs

/-!
# Lowering — copies that are paid for

The price of a choice is computed before the instruction settles any bank, and the copies are
recorded while it does. Where copies within a bank cost nothing, the price pays for exactly those
copies of the instruction whose register lived somewhere before (`Selection.run_paid`). The other
copies are of a register that the instruction itself settles in one bank and demands in the other
as well; without such a register every copy is paid for, and with one the price falls short
(`Selection.unpaid_copy`).
-/

namespace Lowering.Selection

variable {t : Target} {mode : Mode} {env : Env}

/-! ## The copies of one instruction

A run keeps all copies in one list. They are numbered by instruction, so those of one instruction
can be picked out of it, and they stand together: the copies before them have smaller numbers, and
the ones behind them larger. -/

/-- The copies for instruction number `j`. -/
def repairsAt (s : Selection) (j : Nat) : List Repair :=
  s.repairs.filter fun c => c.instr = j

/-- What some copies cost together. -/
def copyTotal (rs : List Repair) : Nat :=
  Cost.amount (rs.map Repair.cost)

/-- The copies of registers that live somewhere. -/
def placedCopies (banks : RegMap Bank) (rs : List Repair) : List Repair :=
  rs.filter fun c => (banks[c.reg]?).isSome

/-- The numbers of the demands of a part of a stream stay below the number behind its last
instruction. -/
theorem lt_of_mem_placed {n j : Nat} {d : Demand} {is : List Instr} {cs : List Choice}
    (h : (j, d) ∈ placed n is cs) : j < n + is.length := by
  have hle := le_of_mem_placed h
  rw [show j = n + (j - n) by omega] at h
  obtain ⟨_, _, hi, _⟩ := mem_placed.1 h
  have hlt := (List.getElem?_eq_some_iff.1 hi).1
  omega

/-- The copies of a part of the stream are for the instructions of that part. -/
theorem instr_of_mem_walk {k : Nat} {banks : RegMap Bank} {is : List Instr} {s : Selection}
    (h : (walk t mode env k banks is).result = .ok s) {c : Repair} (hc : c ∈ s.repairs) :
    k ≤ c.instr ∧ c.instr < k + is.length := by
  obtain ⟨_, _, hrepaired⟩ := walk_eq_ok h
  obtain ⟨v, hmem, _⟩ := hrepaired.sound hc
  exact ⟨le_of_mem_placed hmem, lt_of_mem_placed hmem⟩

theorem instr_of_mem_settle {k : Nat} {banks banks' : RegMap Bank} {ds : List Demand}
    {rs : List Repair} (h : (settle t k banks ds).result = .ok (rs, banks')) {c : Repair}
    (hc : c ∈ rs) : c.instr = k := by
  obtain ⟨_, hrepaired⟩ := settle_eq_ok h
  obtain ⟨v, hmem, _⟩ := hrepaired.sound hc
  obtain ⟨d, _, heq⟩ := List.mem_map.1 hmem
  exact (congrArg Prod.fst heq).symm

/-- Picking out the copies of one instruction gives just what settling it has recorded, since all
copies before have a smaller number and all copies behind a larger one. -/
theorem filter_instr {earlier own later : List Repair} {j : Nat}
    (hearlier : ∀ c ∈ earlier, c.instr < j) (hown : ∀ c ∈ own, c.instr = j)
    (hlater : ∀ c ∈ later, j < c.instr) :
    (earlier ++ (own ++ later)).filter (fun c => c.instr = j) = own := by
  have hbefore : earlier.filter (fun c => c.instr = j) = [] := by
    rw [List.filter_eq_nil_iff]
    intro c hc
    simp [Nat.ne_of_lt (hearlier c hc)]
  have hafter : later.filter (fun c => c.instr = j) = [] := by
    rw [List.filter_eq_nil_iff]
    intro c hc
    simp [Nat.ne_of_gt (hlater c hc)]
  have hmiddle : own.filter (fun c => c.instr = j) = own := by
    rw [List.filter_eq_self]
    intro c hc
    simp [hown c hc]
  rw [List.filter_append, List.filter_append, hbefore, hafter, hmiddle, List.nil_append,
    List.append_nil]

/-- The choice for an instruction and its copies, from the banks as they stand when selection comes
to it. -/
theorem settle_at {instrs : List Instr} {s : Selection} {j : Nat} {i : Instr}
    (h : (run t mode env instrs).result = .ok s) (hi : instrs[j]? = some i) :
    ∃ earlier c mid, s.choices[j]? = some c ∧ (upTo t mode env instrs j).result = .ok earlier ∧
      (choose t mode env earlier.banks i).result = .ok ⟨c.mapping, c.total⟩ ∧
      (settle t j earlier.banks (c.mapping.demands i)).result = .ok (s.repairsAt j, mid) := by
  obtain ⟨earlier, chosen, repairs, mid, later, hearlier, hchosen, hsettle, hlater, hlength, rfl⟩ :=
    run_at h hi
  refine ⟨earlier, ⟨j, chosen.mapping, chosen.total⟩, mid, ?_, hearlier, hchosen, ?_⟩
  · rw [List.getElem?_append_right (Nat.le_of_eq hlength), hlength, Nat.sub_self]
    rfl
  unfold repairsAt
  rw [filter_instr]
  · exact hsettle
  · intro c hc
    obtain ⟨banks, _, hwalk⟩ := Traced.bind_eq_ok.1 hearlier
    have hlt := (instr_of_mem_walk hwalk hc).2
    have hle := List.length_take_le j instrs
    omega
  · exact fun c hc => instr_of_mem_settle hsettle hc
  · exact fun c hc => (instr_of_mem_walk hlater hc).1

/-! ## What the price pays for

The price looks at the banks before the instruction, while copies are recorded as its demands are
settled one after the other. The two see a register differently only if it lived nowhere before:
then it costs nothing, and a copy is still recorded if a second demand wants it elsewhere. -/

/-- The copies of registers that live somewhere cost together what was computed for the demands. -/
theorem Repaired.paid {base banks : RegMap Bank} {ds : List (Nat × Demand)} {rs : List Repair}
    {costs : List Nat} (h : Repaired t banks ds rs)
    (hsame : ∀ b w, t.copyCost b b w = .ok 0) (hbase : Extends base banks)
    (hcosts : CopyCosts t base (ds.map Prod.snd) costs) :
    copyTotal (placedCopies base rs) = Cost.amount costs := by
  unfold copyTotal placedCopies
  -- along the demands: either of the two lists, of copies and of costs, may go on without the other
  induction h generalizing costs with
  | nil =>
    cases hcosts
    rfl
  | stay hbank _ ih =>
    cases hcosts with
    | free _ hrest => exact ih hrest
    | copy hlives hcost hrest =>
      -- the register is where it is demanded, and a copy within a bank costs nothing
      cases hbank.symm.trans (hbase _ _ hlives)
      cases (hsame _ _).symm.trans hcost
      rw [ih hrest, Cost.amount_cons, Nat.zero_add]
  | @copy k d ds rs b cost hbank _ hcost _ ih =>
    cases hcosts with
    | free hnone hrest =>
      rw [List.filter_cons_of_neg (by simp [hnone])]
      exact ih hrest
    | copy hlives hcost' hrest =>
      cases hbank.symm.trans (hbase _ _ hlives)
      cases hcost.symm.trans hcost'
      rw [List.filter_cons_of_pos (by simp [hlives]), List.map_cons, Cost.amount_cons, ih hrest,
        Cost.amount_cons]

/-- A copy of a register that lived nowhere is one out of the bank that another of the demands
gave it. -/
theorem exists_conflict {k : Nat} {banks mid : RegMap Bank} {ds : List Demand} {rs : List Repair}
    (h : (settle t k banks ds).result = .ok (rs, mid)) {c : Repair} (hc : c ∈ rs)
    (hnone : banks[c.reg]? = none) :
    ∃ d ∈ ds, ∃ d' ∈ ds, d.reg = c.reg ∧ d'.reg = c.reg ∧ d.value.bank ≠ d'.value.bank := by
  obtain ⟨hfilled, hrepaired⟩ := settle_eq_ok h
  obtain ⟨v, hmem, hsource, hne, _⟩ := hrepaired.sound hc
  obtain ⟨d', hd', heq⟩ := List.mem_map.1 hmem
  cases heq
  have hfirst := hfilled c.reg
  rw [hsource, hnone, Option.none_or] at hfirst
  obtain ⟨d, hd, hreg, hbank⟩ := exists_mem_of_firstDemand hfirst.symm
  exact ⟨d, hd, _, hd', hreg, rfl, hbank ▸ hne⟩

/-- The price of a choice is the cost of its mapping with the costs of the copies of registers that
lived somewhere before the instruction. These are all copies of the instruction if no register that
lived nowhere is demanded in two banks. -/
theorem run_paid (hsame : ∀ b w, t.copyCost b b w = .ok 0) {instrs : List Instr} {s : Selection}
    (h : (run t mode env instrs).result = .ok s) {j : Nat} {i : Instr}
    (hi : instrs[j]? = some i) :
    ∃ c earlier, s.choices[j]? = some c ∧ (upTo t mode env instrs j).result = .ok earlier ∧
      c.total = c.mapping.cost + copyTotal (placedCopies earlier.banks (s.repairsAt j)) ∧
      ((∀ k k' r v v', s.Demanded instrs j k r v → s.Demanded instrs j k' r v' →
          earlier.bankOf r = none → v.bank = v'.bank) →
        c.total = c.mapping.cost + copyTotal (s.repairsAt j)) := by
  obtain ⟨earlier, c, mid, hc, hearlier, hchosen, hsettle⟩ := settle_at h hi
  obtain ⟨hfilled, hrepaired⟩ := settle_eq_ok hsettle
  obtain ⟨ms, _, hcheapest⟩ := choose_eq_ok hchosen
  obtain ⟨costs, hcosts, htotal, _⟩ := hcheapest.isPrice
  have hpaid : copyTotal (placedCopies earlier.banks (s.repairsAt j)) = Cost.amount costs := by
    refine hrepaired.paid hsame hfilled.extends ?_
    rwa [map_snd_numbered]
  have htotal' : c.total = c.mapping.cost +
      copyTotal (placedCopies earlier.banks (s.repairsAt j)) := by
    rw [hpaid]
    exact htotal
  refine ⟨c, earlier, hc, hearlier, htotal', fun hagree => ?_⟩
  have hall : placedCopies earlier.banks (s.repairsAt j) = s.repairsAt j := by
    unfold placedCopies
    rw [List.filter_eq_self]
    intro x hx
    by_contra hnone
    have hnone : earlier.bankOf x.reg = none := by simpa [bankOf] using hnone
    -- a copy that was not paid for comes of a second demand on its register
    obtain ⟨d, hd, d', hd', hreg, hreg', hne⟩ := exists_conflict hsettle hx hnone
    have hdemanded : ∀ e ∈ c.mapping.demands i, e.reg = x.reg →
        s.Demanded instrs j e.operand x.reg e.value := by
      intro e he hereg
      obtain ⟨hop, hvalue⟩ := InstrMapping.mem_demands.1 he
      exact ⟨i, c, hi, hc, hereg ▸ hop, hvalue⟩
    exact hne (hagree _ _ _ _ _ (hdemanded d hd hreg) (hdemanded d' hd' hreg') hnone)
  rw [hall] at htotal'
  exact htotal'

/-- A store of a constant: its copy out of the scalar bank is paid for. -/
theorem run_paid_store :
    let env : Env := ⟨fun _ => some 32, fun _ => none, fun _ => true⟩
    let instrs : List Instr := [⟨.constant, [.reg ⟨0⟩, .imm 5], 1, [], by decide⟩,
      ⟨.store, [.reg ⟨0⟩, .reg ⟨1⟩], 0, [], by decide⟩]
    ∃ s c earlier, (run gpu .fast env instrs).result = .ok s ∧ s.choices[1]? = some c ∧
      (upTo gpu .fast env instrs 1).result = .ok earlier ∧
      c.total = c.mapping.cost + copyTotal (placedCopies earlier.banks (s.repairsAt 1)) ∧
      copyTotal (s.repairsAt 1) = 1 := by
  intro env instrs
  have hsame : ∀ b w, gpu.copyCost b b w = .ok 0 := by
    rintro (_ | _) w <;> rfl
  obtain ⟨c, earlier, hc, hearlier, hpaid, _⟩ :=
    run_paid hsame (show (run gpu .fast env instrs).result = _ from rfl) (j := 1) rfl
  exact ⟨_, c, earlier, rfl, hc, hearlier, hpaid, rfl⟩

/-- A register that lives nowhere and is demanded in both banks by one instruction: the copy into
the second bank is recorded and the price does not pay for it. -/
theorem unpaid_copy :
    let m : InstrMapping := ⟨1, 1, ⟨[some (.scalar 32), some (.vector 32)]⟩⟩
    let t : Target := { Gpu.plain with mapping := fun _ _ => pure m }
    let env : Env := ⟨fun _ => some 32, fun _ => none, fun _ => false⟩
    let instrs : List Instr := [.ofOperands .add [.reg ⟨0⟩, .reg ⟨0⟩]]
    (∀ b w, t.copyCost b b w = .ok 0) ∧
      ∃ s c, (run t .fast env instrs).result = .ok s ∧ s.choices[0]? = some c ∧
        c.total ≠ c.mapping.cost + copyTotal (s.repairsAt 0) := by
  refine ⟨?_, _, _, rfl, rfl, by decide⟩
  rintro (_ | _) w <;> rfl

end Lowering.Selection
