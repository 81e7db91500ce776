import Lowering.Proofs.PaidCopies

/-!
# Lowering — tables that agree on some registers

Selection reads of its table only the entries of the registers that stand in the instruction at
hand. From two tables that agree on these it makes the same choice (`Selection.choose_agree`) and
records the same copies, and the tables that it leaves agree again (`Selection.settle_agree`,
`Selection.walk_agree`), whatever they have for other registers.

So selection decides online. The constraints of the whole stream are looked at first, but those that
a later instruction adds are on registers that no earlier instruction uses. What is decided for the
beginning of a stream is therefore what is decided for it alone (`Selection.run_online`).
-/

namespace Lowering

/-- Nothing is demanded of a register that does not stand in the instruction. This is where the
reading of a table is confined to the registers at hand. -/
theorem InstrMapping.reg_mem_of_mem_demands {m : InstrMapping} {i : Instr} {d : Demand}
    (h : d ∈ m.demands i) : d.reg ∈ i.regs :=
  Instr.mem_regs.2 (List.mem_of_getElem? (mem_demands.1 h).1)

/-- The copy under the number of another instruction. -/
def Repair.renumber (k : Nat) (c : Repair) : Repair :=
  { c with instr := k }

namespace Selection

variable {t : Target} {mode : Mode} {env : Env} {a b a' b' : RegMap Bank} {regs : List Reg}
  {i : Instr} {k : Nat}

/-! ## Agreement

Two tables may differ anywhere but on the registers that matter. Agreement is kept when both take
the same new entry, and it is all that the lemmas below ask of them. -/

/-- The tables have the same entries for the registers in the list. -/
def AgreeOn (regs : List Reg) (a b : RegMap Bank) : Prop :=
  ∀ r ∈ regs, a[r]? = b[r]?

/-- Agreement on some registers is agreement on any of them. -/
theorem AgreeOn.mono {regs' : List Reg} (h : AgreeOn regs a b) (hsub : regs' ⊆ regs) :
    AgreeOn regs' a b :=
  fun r hr => h r (hsub hr)

/-- Two tables that take the same entry agree as before, also on the register of the entry. -/
theorem AgreeOn.insert (h : AgreeOn regs a b) (r : Reg) (x : Bank) :
    AgreeOn regs (a.insert r x) (b.insert r x) := by
  intro s hs
  rw [RegMap.getElem?_insert, RegMap.getElem?_insert, h s hs]

/-! ## One instruction

A price looks up the registers demanded, a choice compares prices, and settling looks up and
inserts. Each reads no more of the table than the entries of the registers of the instruction. -/

/-- The cost of the copies is paid demand by demand. The induction is on the demands, for any cost
already paid. -/
theorem repairCost_agree {ds : List Demand} (h : ∀ d ∈ ds, a[d.reg]? = b[d.reg]?) :
    repairCost t a ds = repairCost t b ds := by
  change ds.foldlM (payFor t a) 0 = ds.foldlM (payFor t b) 0
  generalize 0 = paid
  induction ds generalizing paid with
  | nil => rfl
  | cons d ds ih =>
    have hd : payFor t a paid d = payFor t b paid d := by
      unfold payFor
      rw [h d List.mem_cons_self]
    have hds : ∀ e ∈ ds, a[e.reg]? = b[e.reg]? := fun e he => h e (List.mem_cons_of_mem d he)
    simp only [List.foldlM_cons, hd, ih hds]

/-- Mappings have the same price as the banks stand in either table, overflow included. -/
theorem price_agree (h : AgreeOn i.regs a b) (m : InstrMapping) :
    price t a i m = price t b i m := by
  have hcost : repairCost t a (m.demands i) = repairCost t b (m.demands i) :=
    repairCost_agree fun d hd => h d.reg (InstrMapping.reg_mem_of_mem_demands hd)
  unfold price
  rw [hcost]

/-- The choice for an instruction depends on the banks of its own registers only. -/
theorem choose_agree (h : AgreeOn i.regs a b) :
    choose t mode env a i = choose t mode env b i := by
  have hcheaper : cheaper t a i = cheaper t b i := by
    funext best m
    unfold cheaper
    rw [price_agree h]
  simp only [choose, cheapest, price_agree h, hcheaper]

/-- What is done about some demands depends on the banks of the registers demanded only, and on the
number of the instruction only in the copies that carry it. -/
theorem settle_agree (k' : Nat) {ds : List Demand} {rs : List Repair}
    (hds : ∀ d ∈ ds, d.reg ∈ regs) (h : AgreeOn regs a b)
    (hsettle : (settle t k a ds).result = .ok (rs, a')) :
    ∃ b', (settle t k' b ds).result = .ok (rs.map (.renumber k'), b') ∧ AgreeOn regs a' b' := by
  induction ds generalizing a b rs with
  | nil =>
    cases hsettle
    exact ⟨b, rfl, h⟩
  | cons d ds ih =>
    -- the two tables agree on the register, so the demand is met in the same way from either
    have hd : a[d.reg]? = b[d.reg]? := h d.reg (hds d List.mem_cons_self)
    have hrest : ∀ e ∈ ds, e.reg ∈ regs := fun e he => hds e (List.mem_cons_of_mem d he)
    obtain ⟨hnone, hlater⟩ | ⟨hstay, hlater⟩ | ⟨x, cost, rs', hx, hne, hcost, hlater, rfl⟩ :=
      settle_cons_eq_ok.1 hsettle
    · obtain ⟨b', hb', hagree⟩ := ih hrest (h.insert d.reg d.value.bank) hlater
      exact ⟨b', settle_cons_eq_ok.2 (.inl ⟨hd ▸ hnone, hb'⟩), hagree⟩
    · obtain ⟨b', hb', hagree⟩ := ih hrest h hlater
      exact ⟨b', settle_cons_eq_ok.2 (.inr (.inl ⟨hd ▸ hstay, hb'⟩)), hagree⟩
    · obtain ⟨b', hb', hagree⟩ := ih hrest h hlater
      exact ⟨b', settle_cons_eq_ok.2 (.inr (.inr ⟨x, cost, _, hd ▸ hx, hne, hcost, hb', rfl⟩)),
        hagree⟩

/-- The copies made for an instruction carry its number already, so giving them that number again
changes nothing. -/
theorem map_renumber_of_settle {ds : List Demand} {rs : List Repair}
    (h : (settle t k a ds).result = .ok (rs, a')) : rs.map (.renumber k) = rs := by
  have hsame : ∀ c ∈ rs, c.renumber k = id c := by
    intro c hc
    rw [Repair.renumber, ← instr_of_mem_settle h hc, id_eq]
  rw [List.map_congr_left hsame, List.map_id]

/-! ## The stream -/

/-- Going over a stream, what is decided depends on the banks of the registers of the stream only.
Induction on the stream: the tables that settling leaves agree on all its registers, so the rest is
decided alike as well. -/
theorem walk_agree {is : List Instr} {s : Selection} (hregs : is.flatMap Instr.regs ⊆ regs)
    (h : AgreeOn regs a b) (hwalk : (walk t mode env k a is).result = .ok s) :
    ∃ banks, (walk t mode env k b is).result = .ok { s with banks } ∧
      AgreeOn regs s.banks banks := by
  induction is generalizing k a b s with
  | nil =>
    cases hwalk
    exact ⟨b, rfl, h⟩
  | cons i is ih =>
    rw [List.flatMap_cons, List.append_subset] at hregs
    obtain ⟨chosen, rs, mid, later, hchosen, hsettle, hlater, rfl⟩ := walk_cons_eq_ok.1 hwalk
    rw [choose_agree (h.mono hregs.1)] at hchosen
    have hdemands : ∀ d ∈ chosen.mapping.demands i, d.reg ∈ regs :=
      -- the demands of the chosen mapping are on registers of this instruction
      fun d hd => hregs.1 (InstrMapping.reg_mem_of_mem_demands hd)
    obtain ⟨mid', hsettle', hmid⟩ := settle_agree k hdemands h hsettle
    rw [map_renumber_of_settle hsettle] at hsettle'
    obtain ⟨banks, hlater', hbanks⟩ := ih hregs.2 hmid hlater
    exact ⟨banks, walk_cons_eq_ok.2 ⟨chosen, rs, mid', _, hchosen, hsettle', hlater', rfl⟩, hbanks⟩

/-- A register with a bank at the end is one of the stream, or had a bank at the start. Nothing else
ever gets into the table. -/
theorem mem_regs_of_walk {is : List Instr} {s : Selection} {r : Reg} {x : Bank}
    (h : (walk t mode env k a is).result = .ok s) (hr : s.bankOf r = some x) :
    a[r]? = some x ∨ r ∈ is.flatMap Instr.regs := by
  obtain ⟨_, hfilled, _⟩ := walk_eq_ok h
  have hbank := hfilled r
  rw [show s.banks[r]? = some x from hr] at hbank
  obtain hstart | ⟨_, hfirst⟩ := Option.or_eq_some_iff.1 hbank.symm
  · exact .inl hstart
  · obtain ⟨d, hd, hreg, _⟩ := exists_mem_of_firstDemand hfirst
    obtain ⟨⟨j, d'⟩, hmem, rfl⟩ := List.mem_map.1 hd
    -- `mem_placed` counts from the first instruction of the part
    rw [show j = k + (j - k) by have := le_of_mem_placed hmem; omega] at hmem
    obtain ⟨i, c, hi, _, hdemand⟩ := mem_placed.1 hmem
    refine .inr (List.mem_flatMap.2 ⟨i, List.mem_of_getElem? hi, ?_⟩)
    exact hreg ▸ InstrMapping.reg_mem_of_mem_demands hdemand

/-- The constraints of a longer stream give the registers of its beginning the banks that they have
without the rest. -/
theorem seed_agree {is js : List Instr} (hseed : (seed t env (is ++ js)).result = .ok a)
    (hseed' : (seed t env is).result = .ok b) : AgreeOn (is.flatMap Instr.regs) a b := by
  intro r hr
  have hr' : r ∈ (is ++ js).flatMap Instr.regs := by
    rw [List.flatMap_append]
    exact List.mem_append_left _ hr
  rw [seed_eq_ok hseed, seed_eq_ok hseed', if_pos hr, if_pos hr']

/-- If selection comes to the end of a stream, it does so for every beginning of the stream, with the
same choices and the same copies up to there, and no register has another bank then. -/
theorem run_online {is js : List Instr} {s : Selection}
    (h : (run t mode env (is ++ js)).result = .ok s) :
    ∃ first, (run t mode env is).result = .ok first ∧ first.choices <+: s.choices ∧
      first.repairs = s.repairs.filter (fun c => c.instr < is.length) ∧
      ∀ r x, first.bankOf r = some x → s.bankOf r = some x := by
  obtain ⟨banks, hseed, hwalk⟩ := run_eq_ok.1 h
  obtain ⟨first, second, hfirst, hsecond, rfl⟩ := walk_append_eq_ok.1 hwalk
  rw [Nat.zero_add] at hsecond
  have hseed' : (seed t env is).result = .ok _ := seed_result is
  have hagree := seed_agree hseed hseed'
  obtain ⟨banks', hwalk', hbanks⟩ := walk_agree (List.Subset.refl _) hagree hfirst
  refine ⟨_, run_eq_ok.2 ⟨_, hseed', hwalk'⟩, List.prefix_append _ _, ?_, ?_⟩
  · have hbefore : first.repairs.filter (fun c => c.instr < is.length) = first.repairs := by
      rw [List.filter_eq_self]
      intro c hc
      have hlt := (instr_of_mem_walk hfirst hc).2
      simpa using hlt
    have hafter : second.repairs.filter (fun c => c.instr < is.length) = [] := by
      rw [List.filter_eq_nil_iff]
      intro c hc
      have hle := (instr_of_mem_walk hsecond hc).1
      simpa using hle
    rw [List.filter_append, hbefore, hafter, List.append_nil]
  · intro r x hr
    -- a register that lives somewhere at the end of the beginning is one of its registers
    have hmem : r ∈ is.flatMap Instr.regs := by
      obtain hstart | hmem := mem_regs_of_walk hwalk' hr
      · rw [seed_eq_ok hseed'] at hstart
        split at hstart
        · next hmem => exact hmem
        · cases hstart
      · exact hmem
    have hr' : first.banks[r]? = some x := (hbanks r hmem).trans hr
    -- what the later instructions do to the table only adds to it
    exact (walk_eq_ok hsecond).2.1.extends r x hr'

/-- The class of an address that a later store uses changes nothing about the constant before it. -/
theorem run_online_store :
    let env : Env := ⟨fun _ => some 32, fun r => if r = ⟨1⟩ then some .sreg32 else none,
      fun _ => true⟩
    let constant : Instr := ⟨.constant, [.reg ⟨0⟩, .imm 5], 1, [], by decide⟩
    let store : Instr := ⟨.store, [.reg ⟨0⟩, .reg ⟨1⟩], 0, [], by decide⟩
    ∃ s first, (run gpu .fast env ([constant] ++ [store])).result = .ok s ∧
      (run gpu .fast env [constant]).result = .ok first ∧ first.choices <+: s.choices ∧
      first.repairs = s.repairs.filter (fun c => c.instr < 1) ∧ s.repairs.length = 2 ∧
      first.bankOf ⟨0⟩ = some .scalar ∧ s.bankOf ⟨0⟩ = some .scalar := by
  intro env constant store
  obtain ⟨first, hfirst, hchoices, hrepairs, hbanks⟩ := run_online
    (show (run gpu .fast env ([constant] ++ [store])).result = .ok _ from rfl)
  have hbank : first.bankOf ⟨0⟩ = some .scalar := by
    cases hfirst
    rfl
  exact ⟨_, first, rfl, hfirst, hchoices, hrepairs, rfl, hbank, hbanks _ _ hbank⟩

end Selection

end Lowering
