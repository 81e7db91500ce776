import Lowering.Proofs.Settling
import Lowering.Target.Gpu

/-!
# Lowering — the copies of a selection

The copies that a selection records are those that its banks call for, one for each operand whose
demanded bank is not the one where the register lives at the end, in the order of the operands
(`Selection.run_repairs`). They are decided upon one after the other, against the banks as they
stand at that moment; what makes the two agree is that a bank once given to a register stays, so
that `Selection.Repaired` holds of the banks at the end.
-/

namespace Lowering.Selection

variable {t : Target} {mode : Mode} {env : Env}

namespace Repaired

variable {banks : RegMap Bank} {ds : List (Nat × Demand)} {rs : List Repair}

/-- Every demanded register has a bank, whether it is copied or stays. -/
theorem exists_bank (h : Repaired t banks ds rs) {p : Nat × Demand} (hp : p ∈ ds) :
    ∃ b, banks[p.2.reg]? = some b := by
  induction h with
  | nil => cases hp
  | stay hbank _ ih =>
    rcases List.mem_cons.1 hp with rfl | hp
    · exact ⟨_, hbank⟩
    · exact ih hp
  | copy hbank _ _ _ ih =>
    rcases List.mem_cons.1 hp with rfl | hp
    · exact ⟨_, hbank⟩
    · exact ih hp

/-- Every copy is for a demand for another bank: it starts from the bank of the register, ends in
the bank demanded, has the width demanded and costs what such a copy costs. -/
theorem sound (h : Repaired t banks ds rs) {c : Repair} (hc : c ∈ rs) :
    ∃ v, (c.instr, ⟨c.operand, c.reg, v⟩) ∈ ds ∧ banks[c.reg]? = some c.source ∧
      c.source ≠ v.bank ∧ c.dest = v.bank ∧ c.width = v.width ∧
      t.copyCost c.source c.dest c.width = .ok c.cost := by
  induction h with
  | nil => cases hc
  | stay _ _ ih =>
    obtain ⟨v, hmem, hcopy⟩ := ih hc
    exact ⟨v, List.mem_cons_of_mem _ hmem, hcopy⟩
  | @copy k d _ _ _ _ hbank hne hcost _ ih =>
    rcases List.mem_cons.1 hc with rfl | hc
    · exact ⟨d.value, List.mem_cons_self, hbank, hne, rfl, rfl, hcost⟩
    · obtain ⟨v, hmem, hcopy⟩ := ih hc
      exact ⟨v, List.mem_cons_of_mem _ hmem, hcopy⟩

/-- Every demand for another bank is met by a copy. With `sound` this says that the copies are just
what the banks call for, in a form that does not mention how they were found. -/
theorem complete (h : Repaired t banks ds rs) {k : Nat} {d : Demand} (hd : (k, d) ∈ ds) {b : Bank}
    (hbank : banks[d.reg]? = some b) (hne : b ≠ d.value.bank) :
    ∃ cost, t.copyCost b d.value.bank d.value.width = .ok cost ∧
      ⟨k, d.operand, d.reg, b, d.value.bank, d.value.width, cost⟩ ∈ rs := by
  induction h with
  | nil => cases hd
  | stay hstay _ ih =>
    rcases List.mem_cons.1 hd with heq | hd
    · cases heq
      -- a demand for the bank of its register needs no copy
      rw [hstay] at hbank
      exact absurd (Option.some.inj hbank).symm hne
    · exact ih hd
  | @copy _ _ _ _ _ cost hcopy _ hcost _ ih =>
    rcases List.mem_cons.1 hd with heq | hd
    · cases heq
      -- the bank that the copy started from is the one that the map records
      cases hcopy.symm.trans hbank
      exact ⟨cost, hcost, List.mem_cons_self⟩
    · obtain ⟨cost', hcost', hmem⟩ := ih hd
      exact ⟨cost', hcost', List.mem_cons_of_mem _ hmem⟩

/-- The copies stand in the order of the demands that they meet. -/
theorem sites_sublist (h : Repaired t banks ds rs) :
    (rs.map fun c => (c.instr, c.operand)).Sublist (ds.map fun p => (p.1, p.2.operand)) := by
  induction h with
  | nil => exact .slnil
  | stay _ _ ih => exact ih.cons _
  | copy _ _ _ _ ih => exact ih.cons_cons _

end Repaired

/-- There is a choice for each instruction, and the copies are recorded in the order of the
operands. Every demanded register has a bank, and there is a copy for an operand exactly if that
bank is another one than the bank demanded, from the one into the other at the width demanded. -/
theorem run_repairs {instrs : List Instr} {s : Selection}
    (h : (run t mode env instrs).result = .ok s) :
    s.choices.map Choice.instr = List.range instrs.length ∧
      (s.repairs.Pairwise fun a b => Before (a.instr, a.operand) (b.instr, b.operand)) ∧
      (∀ j k r v, s.Demanded instrs j k r v → ∃ b, s.bankOf r = some b ∧
        (b ≠ v.bank → ∃ cost, t.copyCost b v.bank v.width = .ok cost ∧
          ⟨j, k, r, b, v.bank, v.width, cost⟩ ∈ s.repairs)) ∧
      ∀ c ∈ s.repairs, ∃ v, s.Demanded instrs c.instr c.operand c.reg v ∧
        s.bankOf c.reg = some c.source ∧ c.source ≠ v.bank ∧ c.dest = v.bank ∧
        c.width = v.width ∧ t.copyCost c.source c.dest c.width = .ok c.cost := by
  obtain ⟨banks, _, hwalk⟩ := run_eq_ok.1 h
  obtain ⟨hnumbers, _, hrepaired⟩ := walk_eq_ok hwalk
  refine ⟨hnumbers.trans List.range_eq_range'.symm, ?_, ?_, ?_⟩
  · -- the copies are in the order of the demands that they meet, of which they leave some out
    have hplaced := pairwise_placed 0 instrs s.choices
    have hsites := (List.pairwise_map.2 hplaced).sublist hrepaired.sites_sublist
    exact List.pairwise_map.1 hsites
  · intro j k r v hdemand
    have hmem : (j, ⟨k, r, v⟩) ∈ placed 0 instrs s.choices := mem_placed_iff.2 hdemand
    obtain ⟨b, hbank⟩ := hrepaired.exists_bank hmem
    exact ⟨b, hbank, fun hne => hrepaired.complete hmem hbank hne⟩
  · intro c hc
    obtain ⟨v, hmem, hcopy⟩ := hrepaired.sound hc
    exact ⟨v, mem_placed_iff.1 hmem, hcopy⟩

/-- A scalar constant is stored from the vector bank. -/
theorem run_repairs_store :
    let env : Env := ⟨fun _ => some 32, fun _ => none, fun _ => true⟩
    let instrs : List Instr := [⟨.constant, [.reg ⟨0⟩, .imm 5], 1, [], by decide⟩,
      ⟨.store, [.reg ⟨0⟩, .reg ⟨1⟩], 0, [], by decide⟩]
    ∃ s, (run gpu .fast env instrs).result = .ok s ∧ s.choices.map Choice.instr = [0, 1] ∧
      ⟨1, 0, ⟨0⟩, .scalar, .vector, 32, 1⟩ ∈ s.repairs := by
  intro env instrs
  refine ⟨_, rfl, ?_⟩
  obtain ⟨hnumbers, _, hcomplete, _⟩ :=
    run_repairs (show (run gpu .fast env instrs).result = _ from rfl)
  refine ⟨hnumbers, ?_⟩
  obtain ⟨b, hbank, hcopy⟩ := hcomplete 1 0 ⟨0⟩ ⟨.vector, 32⟩ ⟨_, _, rfl, rfl, rfl, rfl⟩
  cases hbank
  obtain ⟨cost, hcost, hmem⟩ := hcopy (by decide)
  cases hcost
  exact hmem

end Lowering.Selection
