import Lowering.Selection.Run
import Mathlib.Data.List.Basic

/-!
# Lowering — what a mapping costs

The price of a mapping as the banks stand is its own cost with one copy for each demand on a
register that lives somewhere, all of it below the bound of costs (`Selection.IsPrice`,
`Selection.price_eq_ok_iff`). Among the mappings that are weighed, selection chooses the earliest of
those with the least price (`Selection.FirstCheapest`, `Selection.choose_eq_ok`); that every one of
them has a price comes with it, since the price of each is computed on the way.
-/

namespace Lowering.Selection

variable {t : Target} {mode : Mode} {env : Env} {banks : RegMap Bank} {i : Instr}

/-! ## The price of one mapping

A price is computed by adding up costs one by one, with a check at every sum. The costs are all
natural numbers, so if the last sum is in range, then all before it were: the checks come to one
bound on the total. -/

/-- What it costs to take the registers of some demands out of the banks where they live, one cost
for each demand on a register that lives somewhere. -/
inductive CopyCosts (t : Target) (banks : RegMap Bank) : List Demand → List Nat → Prop where
  | nil : CopyCosts t banks [] []
  | free {d : Demand} {ds : List Demand} {costs : List Nat} (hbank : banks[d.reg]? = none)
      (hrest : CopyCosts t banks ds costs) : CopyCosts t banks (d :: ds) costs
  | copy {d : Demand} {ds : List Demand} {costs : List Nat} {b : Bank} {cost : Nat}
      (hbank : banks[d.reg]? = some b)
      (hcost : t.copyCost b d.value.bank d.value.width = .ok cost)
      (hrest : CopyCosts t banks ds costs) : CopyCosts t banks (d :: ds) (cost :: costs)

/-- The price of a mapping as the banks stand. -/
def IsPrice (t : Target) (banks : RegMap Bank) (i : Instr) (m : InstrMapping) (total : Nat) :
    Prop :=
  ∃ costs, CopyCosts t banks (m.demands i) costs ∧ total = m.cost + Cost.amount costs ∧
    total < Cost.bound

/-- What was paid so far with the copy for one more demand. -/
def payFor (t : Target) (banks : RegMap Bank) (paid : Nat) (d : Demand) : Except Fault Nat :=
  match banks[d.reg]? with
  | some b => do Cost.add paid (← t.copyCost b d.value.bank d.value.width)
  | none => pure paid

/-- Paying for some demands one after the other, on top of what was paid already, succeeds exactly
if every copy has a cost and the total is below the bound. Induction on the demands; what was paid
so far is any number below the bound, as it grows on the way. -/
theorem foldlM_payFor_eq_ok_iff {ds : List Demand} {paid total : Nat} (hpaid : paid < Cost.bound) :
    ds.foldlM (payFor t banks) paid = .ok total ↔
      ∃ costs, CopyCosts t banks ds costs ∧ total = paid + Cost.amount costs ∧
        total < Cost.bound := by
  induction ds generalizing paid with
  | nil =>
    constructor
    · intro h
      cases h
      exact ⟨[], .nil, rfl, hpaid⟩
    · rintro ⟨costs, hcosts, rfl, _⟩
      cases hcosts
      rfl
  | cons d ds ih =>
    rw [List.foldlM_cons, Fault.bind_eq_ok, payFor]
    cases hbank : banks[d.reg]? with
    | none =>
      constructor
      · rintro ⟨mid, hmid, h⟩
        cases hmid
        obtain ⟨costs, hcosts, htotal⟩ := (ih hpaid).1 h
        exact ⟨costs, .free hbank hcosts, htotal⟩
      · rintro ⟨costs, hcosts, htotal⟩
        cases hcosts with
        | free _ hrest => exact ⟨paid, rfl, (ih hpaid).2 ⟨costs, hrest, htotal⟩⟩
        | copy hsome _ _ => cases hbank.symm.trans hsome
    | some b =>
      constructor
      · rintro ⟨mid, hmid, h⟩
        obtain ⟨cost, hcost, hadd⟩ := Fault.bind_eq_ok.1 hmid
        obtain ⟨rfl, hlt⟩ := Cost.add_eq_ok_iff.1 hadd
        obtain ⟨costs, hcosts, htotal, hbound⟩ := (ih hlt).1 h
        exact ⟨cost :: costs, .copy hbank hcost hcosts,
          by rw [htotal, Cost.amount_cons, Nat.add_assoc], hbound⟩
      · rintro ⟨costs, hcosts, htotal, hbound⟩
        cases hcosts with
        | free hnone _ => cases hbank.symm.trans hnone
        | @copy _ _ costs _ cost hsome hcost hrest =>
          cases hbank.symm.trans hsome
          rw [Cost.amount_cons, ← Nat.add_assoc] at htotal
          -- no partial sum is above the whole one
          have hlt : paid + cost < Cost.bound := by omega
          exact ⟨paid + cost, Fault.bind_eq_ok.2 ⟨cost, hcost, Cost.add_eq_ok_iff.2 ⟨rfl, hlt⟩⟩,
            (ih hlt).2 ⟨costs, hrest, htotal, hbound⟩⟩

/-- The cost of taking all registers to the banks where a mapping wants them is the total of the
copies of those that live somewhere. -/
theorem repairCost_eq_ok_iff {ds : List Demand} {total : Nat} :
    repairCost t banks ds = .ok total ↔
      ∃ costs, CopyCosts t banks ds costs ∧ total = Cost.amount costs ∧ total < Cost.bound := by
  change ds.foldlM (payFor t banks) 0 = .ok total ↔ _
  rw [foldlM_payFor_eq_ok_iff (by decide)]
  simp only [Nat.zero_add]

/-- Pricing a mapping gives the mapping itself with its price, and fails exactly if it has none: if
some copy has no cost, or if the total is out of range. -/
theorem price_eq_ok_iff {m : InstrMapping} {p : Priced} :
    price t banks i m = .ok p ↔ p.mapping = m ∧ IsPrice t banks i m p.total := by
  unfold price
  rw [Fault.bind_eq_ok]
  constructor
  · rintro ⟨repairs, hrepairs, h⟩
    obtain ⟨total, htotal, h⟩ := Fault.bind_eq_ok.1 h
    obtain ⟨costs, hcosts, rfl, _⟩ := repairCost_eq_ok_iff.1 hrepairs
    obtain ⟨rfl, hbound⟩ := Cost.add_eq_ok_iff.1 htotal
    cases h
    exact ⟨rfl, costs, hcosts, rfl, hbound⟩
  · rintro ⟨rfl, costs, hcosts, htotal, hbound⟩
    -- the amount of the copies is at most the total, so it is in range if the total is
    have hrepairs : repairCost t banks (p.mapping.demands i) = .ok (Cost.amount costs) :=
      repairCost_eq_ok_iff.2 ⟨costs, hcosts, rfl, by omega⟩
    exact ⟨Cost.amount costs, hrepairs, Fault.bind_eq_ok.2
      ⟨p.total, Cost.add_eq_ok_iff.2 ⟨htotal, htotal ▸ hbound⟩, rfl⟩⟩

/-! ## Copies at one each

Targets as they stand ask one for a copy to another bank. The price then is a count, which bounds it
by the number of operands. -/

/-- The register of the demand lives in another bank than the one demanded. -/
def misplaced (banks : RegMap Bank) (d : Demand) : Bool :=
  banks[d.reg]?.any (· ≠ d.value.bank)

/-- The costs of the copies are one for every register that is not where it is demanded. -/
theorem CopyCosts.amount_eq (hunit : ∀ a b w, t.copyCost a b w = .ok (if a = b then 0 else 1))
    {ds : List Demand} {costs : List Nat} (h : CopyCosts t banks ds costs) :
    Cost.amount costs = ds.countP (misplaced banks) := by
  induction h with
  | nil => rfl
  | free hbank _ ih =>
    rw [ih, List.countP_cons_of_neg (by simp [misplaced, hbank])]
  | copy hbank hcost _ ih =>
    cases (hunit _ _ _).symm.trans hcost
    rw [Cost.amount_cons, List.countP_cons, ih, Nat.add_comm]
    simp [misplaced, hbank]

/-- Where a copy to another bank costs one, and a copy within a bank nothing, the price counts the
misplaced registers. -/
theorem IsPrice.eq_misplaced (hunit : ∀ a b w, t.copyCost a b w = .ok (if a = b then 0 else 1))
    {m : InstrMapping} {total : Nat} (h : IsPrice t banks i m total) :
    total = m.cost + (m.demands i).countP (misplaced banks) := by
  obtain ⟨costs, hcosts, rfl, _⟩ := h
  rw [hcosts.amount_eq hunit]

/-! ## The first of the cheapest

Selection keeps the best mapping so far and weighs the next one against it. What it has kept after
some candidates is the earliest of the cheapest of them; this is the invariant, and each candidate
either keeps it as it is or takes its place. -/

/-- Among some candidates, which all have a price, the mapping is the earliest of those with the
least price, and its price is `total`. -/
def FirstCheapest (t : Target) (banks : RegMap Bank) (i : Instr) (candidates : List InstrMapping)
    (m : InstrMapping) (total : Nat) : Prop :=
  ∃ before after, candidates = before ++ m :: after ∧ IsPrice t banks i m total ∧
    (∀ x ∈ before, ∃ p, IsPrice t banks i x p ∧ total < p) ∧
    ∀ x ∈ after, ∃ p, IsPrice t banks i x p ∧ total ≤ p

namespace FirstCheapest

variable {candidates : List InstrMapping} {m x : InstrMapping} {total p : Nat}

theorem single (h : IsPrice t banks i m total) : FirstCheapest t banks i [m] m total :=
  ⟨[], [], rfl, h, by simp, by simp⟩

theorem isPrice (h : FirstCheapest t banks i candidates m total) : IsPrice t banks i m total := by
  obtain ⟨_, _, _, hprice, _⟩ := h
  exact hprice

theorem mem (h : FirstCheapest t banks i candidates m total) : m ∈ candidates := by
  obtain ⟨before, after, rfl, _⟩ := h
  simp

/-- No candidate is cheaper. -/
theorem le (h : FirstCheapest t banks i candidates m total) (hx : x ∈ candidates) :
    ∃ p, IsPrice t banks i x p ∧ total ≤ p := by
  obtain ⟨before, after, rfl, hprice, hbefore, hafter⟩ := h
  rcases List.mem_append.1 hx with hx | hx
  · obtain ⟨p, hp, hlt⟩ := hbefore x hx
    exact ⟨p, hp, Nat.le_of_lt hlt⟩
  · rcases List.mem_cons.1 hx with rfl | hx
    · exact ⟨total, hprice, Nat.le_refl _⟩
    · exact hafter x hx

/-- Either the first candidate is chosen, or one behind it that is cheaper. -/
theorem eq_or_lt {first : InstrMapping} {later : List InstrMapping}
    (h : FirstCheapest t banks i (first :: later) m total) :
    m = first ∨ m ∈ later ∧ ∃ p, IsPrice t banks i first p ∧ total < p := by
  obtain ⟨before, after, heq, _, hbefore, _⟩ := h
  cases before with
  | nil =>
    cases heq
    exact .inl rfl
  | cons x before =>
    cases heq
    exact .inr ⟨by simp, hbefore _ List.mem_cons_self⟩

/-- One more candidate that is not cheaper changes nothing. -/
theorem keep (h : FirstCheapest t banks i candidates m total) (hx : IsPrice t banks i x p)
    (hle : total ≤ p) : FirstCheapest t banks i (candidates ++ [x]) m total := by
  obtain ⟨before, after, rfl, hprice, hbefore, hafter⟩ := h
  refine ⟨before, after ++ [x], by simp, hprice, hbefore, ?_⟩
  intro y hy
  rcases List.mem_append.1 hy with hy | hy
  · exact hafter y hy
  · rw [List.mem_singleton.1 hy]
    exact ⟨p, hx, hle⟩

/-- One more candidate that is cheaper takes the place of the one chosen before. -/
theorem replace (h : FirstCheapest t banks i candidates m total) (hx : IsPrice t banks i x p)
    (hlt : p < total) : FirstCheapest t banks i (candidates ++ [x]) x p := by
  refine ⟨candidates, [], rfl, hx, ?_, by simp⟩
  intro y hy
  obtain ⟨q, hq, hle⟩ := h.le hy
  exact ⟨q, hq, Nat.lt_of_lt_of_le hlt hle⟩

end FirstCheapest

/-- One candidate more is weighed against the best so far. -/
theorem cheaper_eq_ok {candidates : List InstrMapping} {m : InstrMapping} {best next : Priced}
    (hbest : FirstCheapest t banks i candidates best.mapping best.total)
    (h : cheaper t banks i best m = .ok next) :
    FirstCheapest t banks i (candidates ++ [m]) next.mapping next.total := by
  obtain ⟨p, hprice, hnext⟩ := Fault.bind_eq_ok.1 h
  obtain ⟨rfl, hp⟩ := price_eq_ok_iff.1 hprice
  rw [← Except.ok.inj hnext]
  split
  · next hlt => exact hbest.replace hp hlt
  · next hge => exact hbest.keep hp (Nat.le_of_not_lt hge)

/-- Candidates are weighed one after the other against the best so far. Induction on the candidates
that are left, from any that were weighed already. -/
theorem cheapest_eq_ok {candidates ms : List InstrMapping} {first best : Priced}
    (hfirst : FirstCheapest t banks i candidates first.mapping first.total)
    (h : cheapest t banks i first ms = .ok best) :
    FirstCheapest t banks i (candidates ++ ms) best.mapping best.total := by
  unfold cheapest at h
  induction ms generalizing candidates first with
  | nil =>
    cases h
    rwa [List.append_nil]
  | cons m ms ih =>
    rw [List.foldlM_cons] at h
    obtain ⟨next, hnext, h⟩ := Fault.bind_eq_ok.1 h
    -- the candidate just weighed joins those that were weighed before
    rw [List.append_cons]
    exact ih (cheaper_eq_ok hfirst hnext) h

/-- The mappings that are weighed for an instruction. -/
def candidates (t : Target) (mode : Mode) (env : Env) (i : Instr) : Traced (List InstrMapping) :=
  match mode with
  | .fast => do return [← t.mapping env i]
  | .greedy => t.possibleMappings env i

/-- The mappings that are weighed besides the target's own. -/
def others (t : Target) (mode : Mode) (env : Env) (i : Instr) : Traced (List InstrMapping) :=
  match mode with
  | .fast => pure []
  | .greedy => t.alternatives env i

/-- The choice between the target's own mapping and some others. -/
def chooseAmong (t : Target) (env : Env) (banks : RegMap Bank) (i : Instr)
    (ms : List InstrMapping) : Traced Priced := do
  let m ← t.mapping env i
  let first ← price t banks i m
  let best ← cheapest t banks i first ms
  Traced.emit (.chosen i best.mapping best.total)
  pure best

/-- A choice is one between the target's own mapping and its alternatives, of which fast selection
has none to look at. -/
theorem choose_eq : choose t mode env banks i = others t mode env i >>= chooseAmong t env banks i := by
  cases mode <;> rfl

/-- The candidates are the target's own mapping and the others behind it. -/
theorem candidates_eq_ok {m : InstrMapping} {ms : List InstrMapping}
    (hm : (t.mapping env i).result = .ok m) (hms : (others t mode env i).result = .ok ms) :
    (candidates t mode env i).result = .ok (m :: ms) := by
  cases mode with
  | fast =>
    cases hms
    exact Traced.bind_eq_ok.2 ⟨m, hm, rfl⟩
  | greedy => exact Traced.bind_eq_ok.2 ⟨m, hm, Traced.bind_eq_ok.2 ⟨ms, hms, rfl⟩⟩

/-- The choice for an instruction is the first of the cheapest among its candidates, in either
mode. -/
theorem choose_eq_ok {chosen : Priced} (h : (choose t mode env banks i).result = .ok chosen) :
    ∃ ms, (candidates t mode env i).result = .ok ms ∧
      FirstCheapest t banks i ms chosen.mapping chosen.total := by
  rw [choose_eq] at h
  obtain ⟨ms, hms, h⟩ := Traced.bind_eq_ok.1 h
  obtain ⟨m, hm, h⟩ := Traced.bind_eq_ok.1 h
  obtain ⟨first, hfirst, h⟩ := Traced.bind_eq_ok.1 h
  obtain ⟨best, hbest, h⟩ := Traced.bind_eq_ok.1 h
  obtain ⟨_, _, h⟩ := Traced.bind_eq_ok.1 h
  cases h
  obtain ⟨rfl, hprice⟩ := price_eq_ok_iff.1 hfirst
  exact ⟨first.mapping :: ms, candidates_eq_ok hm hms, cheapest_eq_ok (.single hprice) hbest⟩

/-- Fast selection takes the target's own mapping at its price. -/
theorem choose_fast_eq_ok {chosen : Priced}
    (h : (choose t .fast env banks i).result = .ok chosen) :
    (t.mapping env i).result = .ok chosen.mapping ∧
      IsPrice t banks i chosen.mapping chosen.total := by
  obtain ⟨ms, hms, hcheapest⟩ := choose_eq_ok h
  obtain ⟨m, hm, hms⟩ := Traced.bind_eq_ok.1 hms
  cases hms
  rw [List.mem_singleton.1 hcheapest.mem] at *
  exact ⟨hm, hcheapest.isPrice⟩

/-- Greedy selection weighs the alternatives against the target's own mapping, which is chosen
unless an alternative is strictly cheaper. -/
theorem choose_greedy_eq_ok {chosen : Priced}
    (h : (choose t .greedy env banks i).result = .ok chosen) :
    ∃ m later, (t.mapping env i).result = .ok m ∧ (t.alternatives env i).result = .ok later ∧
      FirstCheapest t banks i (m :: later) chosen.mapping chosen.total := by
  obtain ⟨ms, hms, hcheapest⟩ := choose_eq_ok h
  obtain ⟨m, hm, hms⟩ := Traced.bind_eq_ok.1 hms
  obtain ⟨later, hlater, hms⟩ := Traced.bind_eq_ok.1 hms
  cases hms
  exact ⟨m, later, hm, hlater, hcheapest⟩

end Lowering.Selection
