import Lowering.Proofs.Choices
import Lowering.Proofs.Loads
import Mathlib.Algebra.BigOperators.Group.Finset.Piecewise
import Mathlib.Algebra.Order.BigOperators.Group.Finset

/-!
# Lowering — what the two modes cost

The greedy mode is never dearer for the instruction at hand, but the banks it settles are those that
later instructions find. On the target with scalar and vector registers the two modes can put a
register in different banks only where the greedy mode diverts it at a divergent load, and the fast
mode has it in the vector bank then (`Selection.Parted.step`). Diverting a register saves a copy at
the load and one wherever the register is demanded in the scalar bank later, and costs a copy
wherever it is demanded in the vector bank. So the greedy mode costs no more than the fast mode as
long as the fast mode demands no disputed register in the vector bank more than twice, the load
included, or makes up for every further demand by one in the scalar bank (`Selection.run_modes`). A
third demand can make the greedy mode dearer (`Selection.greedy_dearer`).
-/

namespace Lowering.Selection

variable {env : Env} {a b a' b' : RegMap Bank} {i : Instr} {r : Reg} {ds es : List Demand}

/-! ## Disputed registers

The two modes go over the stream with a table each. A register is disputed if the tables differ on
it, and `Selection.Parted` says that they can only differ in one way: what is vector in the fast
mode is scalar in the greedy mode. -/

/-- The registers that two tables put in different banks. -/
def disputes (a b : RegMap Bank) : Finset Reg :=
  (a.keys ++ b.keys).toFinset.filter fun r => a[r]? ≠ b[r]?

/-- A register is disputed exactly if the tables do not agree on it. A set of these can be counted,
since both tables are finite. -/
theorem mem_disputes : r ∈ disputes a b ↔ a[r]? ≠ b[r]? := by
  unfold disputes
  rw [Finset.mem_filter, List.mem_toFinset, List.mem_append, Std.ExtTreeMap.mem_keys,
    Std.ExtTreeMap.mem_keys, Std.ExtTreeMap.mem_iff_isSome_getElem?,
    Std.ExtTreeMap.mem_iff_isSome_getElem?]
  refine ⟨And.right, fun h => ⟨?_, h⟩⟩
  -- a register that neither table has is no dispute
  cases ha : a[r]? with
  | some x => exact .inl rfl
  | none =>
    cases hb : b[r]? with
    | some x => exact .inr rfl
    | none => exact absurd (ha.trans hb.symm) h

/-- Where there is no dispute, the tables agree. -/
theorem not_mem_disputes : r ∉ disputes a b ↔ a[r]? = b[r]? := by
  rw [mem_disputes, not_not]

/-- Where the tables differ, the first has the vector bank and the second the scalar bank. -/
def Parted (a b : RegMap Bank) : Prop :=
  ∀ r ∈ disputes a b, a[r]? = some .vector ∧ b[r]? = some .scalar

/-- Selection begins without disputes, since both modes start from the same constraints. -/
theorem disputes_self (a : RegMap Bank) : disputes a a = ∅ :=
  Finset.eq_empty_of_forall_notMem fun _ => not_mem_disputes.2 rfl

theorem Parted.self (a : RegMap Bank) : Parted a a :=
  fun _ h => absurd rfl (mem_disputes.1 h)

theorem mem_disputes_of_banks (ha : a[r]? = some .vector) (hb : b[r]? = some .scalar) :
    r ∈ disputes a b := by
  rw [mem_disputes, ha, hb]
  exact nofun

/-- A register that lives nowhere in the second table lives nowhere in the first. -/
theorem Parted.eq_none (h : Parted a b) (hr : b[r]? = none) : a[r]? = none := by
  by_contra hne
  have hscalar := (h r (mem_disputes.2 fun heq => hne (heq.trans hr))).2
  cases hr.symm.trans hscalar

/-- A register that lives somewhere is disputed from then on, or never. -/
theorem Parted.mem_disputes_iff (h : Parted a b) (ha : Extends a a') (hb : Extends b b')
    (hr : (a[r]?).isSome) : r ∈ disputes a' b' ↔ r ∈ disputes a b := by
  by_cases hmem : r ∈ disputes a b
  · obtain ⟨hvector, hscalar⟩ := h r hmem
    exact iff_of_true (mem_disputes_of_banks (ha r _ hvector) (hb r _ hscalar)) hmem
  · obtain ⟨x, hx⟩ := Option.isSome_iff_exists.1 hr
    have hx' : b[r]? = some x := (not_mem_disputes.1 hmem).symm.trans hx
    exact iff_of_false (not_mem_disputes.2 ((ha r x hx).trans (hb r x hx').symm)) hmem

/-! ## Demands on disputed registers

A demand on a disputed register costs one of the modes a copy, and which one is told by the bank
that it is for. So the disputes and the demands on them are what the modes' prices for the same
mapping differ by. -/

/-- How many of the demands are on disputed registers and for one bank. -/
def disputedDemands (a b : RegMap Bank) (x : Bank) (ds : List Demand) : Nat :=
  ds.countP fun d => d.reg ∈ disputes a b ∧ d.value.bank = x

theorem disputedDemands_append (a b : RegMap Bank) (x : Bank) (ds es : List Demand) :
    disputedDemands a b x (ds ++ es) = disputedDemands a b x ds + disputedDemands a b x es :=
  List.countP_append

/-- The count only asks which of the registers demanded are disputed. -/
theorem disputedDemands_congr {x : Bank}
    (h : ∀ d ∈ ds, d.value.bank = x → (d.reg ∈ disputes a' b' ↔ d.reg ∈ disputes a b)) :
    disputedDemands a' b' x ds = disputedDemands a b x ds := by
  refine List.countP_congr fun d hd => ?_
  simp only [decide_eq_true_eq]
  exact and_congr_left (h d hd)

/-- A copy that the second table calls for and the first does not is a demand for the vector bank on
a disputed register, and the other way round with the scalar bank. -/
theorem Parted.countP_misplaced (h : Parted a b) (ds : List Demand) :
    ds.countP (misplaced b) + disputedDemands a b .scalar ds =
      ds.countP (misplaced a) + disputedDemands a b .vector ds := by
  unfold disputedDemands
  induction ds with
  | nil => rfl
  | cons d ds ih =>
    simp only [List.countP_cons]
    by_cases hd : d.reg ∈ disputes a b
    · obtain ⟨hvector, hscalar⟩ := h d.reg hd
      cases hx : d.value.bank <;> simp [-Bool.decide_and, misplaced, hvector, hscalar, hd, hx] <;>
        omega
    · have hsame : misplaced b d = misplaced a d := by
        unfold misplaced
        rw [not_mem_disputes.1 hd]
      simp only [hsame, hd, false_and, decide_false]
      omega

/-! ## One instruction

An instruction is priced by the fast mode with one table and by the greedy mode with the other. What
the greedy mode may do besides is to divert a register, which adds a dispute and saves a copy at
once. The counts are set up so that each step of the walk keeps the balance. -/

/-- A register that is settled alike is disputed afterwards if it was before, and has kept its banks
then. -/
theorem Parted.settled (h : Parted a b) (ha : Filled a ds a') (hb : Filled b es b')
    (halike : SettlesAlike b ds es r) :
    (r ∈ disputes a' b' ↔ r ∈ disputes a b) ∧
      (r ∈ disputes a' b' → a'[r]? = some .vector ∧ b'[r]? = some .scalar) := by
  by_cases hr : r ∈ disputes a b
  · obtain ⟨hvector, hscalar⟩ := h r hr
    have hvector' := ha.extends r _ hvector
    have hscalar' := hb.extends r _ hscalar
    exact ⟨iff_of_true (mem_disputes_of_banks hvector' hscalar') hr, fun _ => ⟨hvector', hscalar'⟩⟩
  · have hsame : a'[r]? = b'[r]? := by
      rw [ha r, hb r, not_mem_disputes.1 hr]
      cases hnone : b[r]? with
      | none => rw [halike hnone]
      | some x => rfl
    have hr' := not_mem_disputes.2 hsame
    exact ⟨iff_of_false hr' hr, fun hmem => absurd hmem hr'⟩

/-- Where all registers are settled alike, the disputes stay as they are. -/
theorem Parted.alike (h : Parted a b) (ha : Filled a ds a') (hb : Filled b es b')
    (halike : ∀ r, SettlesAlike b ds es r) :
    Parted a' b' ∧ disputes a' b' = disputes a b :=
  ⟨fun r => (h.settled ha hb (halike r)).2, Finset.ext fun r => (h.settled ha hb (halike r)).1⟩

/-- Where one register is diverted, there is one more dispute: the register itself, which was none
before, since neither mode had a bank for it. -/
theorem Parted.diverted (h : Parted a b) (ha : Filled a ds a') (hb : Filled b es b')
    (hr : Diverted b ds es r) (halike : ∀ s, s ≠ r → SettlesAlike b ds es s) :
    Parted a' b' ∧ r ∉ disputes a b ∧ disputes a' b' = insert r (disputes a b) := by
  have hvector : a'[r]? = some .vector := by
    rw [ha r, h.eq_none hr.nowhere, hr.vector]
    rfl
  have hscalar : b'[r]? = some .scalar := by
    rw [hb r, hr.nowhere, hr.scalar]
    rfl
  have hnew : r ∉ disputes a b := not_mem_disputes.2 ((h.eq_none hr.nowhere).trans hr.nowhere.symm)
  refine ⟨fun s hs => ?_, hnew, Finset.ext fun s => ?_⟩
  · by_cases hsr : s = r
    · exact hsr ▸ ⟨hvector, hscalar⟩
    · exact (h.settled ha hb (halike s hsr)).2 hs
  · rw [Finset.mem_insert]
    by_cases hsr : s = r
    · exact iff_of_true (hsr ▸ mem_disputes_of_banks hvector hscalar) (.inl hsr)
    · rw [(h.settled ha hb (halike s hsr)).1]
      exact ⟨.inr, fun hmem => hmem.resolve_left hsr⟩

/-- The dispute that a diverted register begins shows in the demands that would have settled it: one
more of them at least is for the vector bank, none more for the scalar bank. -/
theorem disputedDemands_diverted (hr : Diverted b ds es r) (hnew : r ∉ disputes a b)
    (hinsert : disputes a' b' = insert r (disputes a b)) :
    disputedDemands a b .vector ds < disputedDemands a' b' .vector ds ∧
      disputedDemands a' b' .scalar ds = disputedDemands a b .scalar ds := by
  constructor
  · obtain ⟨d, hmem, rfl, hbank⟩ := exists_mem_of_firstDemand hr.vector
    obtain ⟨before, after, rfl⟩ := List.append_of_mem hmem
    have hmono : ∀ ds : List Demand,
        disputedDemands a b .vector ds ≤ disputedDemands a' b' .vector ds := by
      refine fun ds => List.countP_mono_left fun d _ hd => ?_
      simp only [decide_eq_true_eq, hinsert, Finset.mem_insert] at hd ⊢
      exact ⟨.inr hd.1, hd.2⟩
    have hbefore := hmono before
    have hafter := hmono after
    unfold disputedDemands at hbefore hafter ⊢
    rw [List.countP_append, List.countP_append, List.countP_cons_of_neg (by simp [hnew]),
      List.countP_cons_of_pos (by simp [hinsert, hbank])]
    omega
  · refine disputedDemands_congr fun d hd hscalar => ?_
    have hne : d.reg ≠ r := by
      intro hreg
      cases hscalar.symm.trans (hr.only d hd hreg)
    rw [hinsert, Finset.mem_insert]
    exact ⟨fun hmem => hmem.resolve_left hne, .inr⟩

/-- What one instruction does to the disputes, and what the two modes pay for it. The greedy mode
pays at most what the fast mode does, one more for every demand for the vector bank on a disputed
register, one less for every demand for the scalar bank on one, and two less for a new dispute: the
copy that was saved by it, and one since the demand that it diverts is counted without being paid
for. -/
theorem Parted.step (h : Parted a b) {m chosen : InstrMapping} {later : List InstrMapping}
    {paid total : Nat} (hown : (gpu.mapping env i).result = .ok m)
    (hlater : (gpu.alternatives env i).result = .ok later) (hpaid : IsPrice gpu a i m paid)
    (hchosen : FirstCheapest gpu b i (m :: later) chosen total)
    (ha : Filled a (m.demands i) a') (hb : Filled b (chosen.demands i) b') :
    Parted a' b' ∧ (∀ r ∈ disputes a' b', r ∈ disputes a b ∨ env.DivergentLoad i r) ∧
      total + 2 * (disputes a' b').card + disputedDemands a' b' .scalar (m.demands i) ≤
        paid + 2 * (disputes a b).card + disputedDemands a' b' .vector (m.demands i) := by
  obtain ⟨price, hprice, hcases⟩ := Gpu.choice_cases hown hlater hchosen
  -- the target's own mapping at the prices of both tables
  have hprices : price + disputedDemands a b .scalar (m.demands i) =
      paid + disputedDemands a b .vector (m.demands i) := by
    have hcopies := h.countP_misplaced (m.demands i)
    rw [hprice.eq_misplaced Gpu.copyCost_gpu, hpaid.eq_misplaced Gpu.copyCost_gpu]
    omega
  obtain ⟨hle, halike⟩ | ⟨hlt, r, hload, hr, halike⟩ := hcases
  · obtain ⟨hparted, hsame⟩ := h.alike ha hb halike
    have hdemands : ∀ x, disputedDemands a' b' x (m.demands i) =
        disputedDemands a b x (m.demands i) :=
      fun x => disputedDemands_congr fun d _ _ => by rw [hsame]
    refine ⟨hparted, fun r hr => .inl (hsame ▸ hr), ?_⟩
    rw [hsame, hdemands, hdemands]
    omega
  · obtain ⟨hparted, hnew, hinsert⟩ := h.diverted ha hb hr halike
    obtain ⟨hvector, hscalar⟩ := disputedDemands_diverted hr hnew hinsert
    refine ⟨hparted, fun s hs => ?_, ?_⟩
    · rw [hinsert] at hs
      exact (Finset.mem_insert.1 hs).elim (fun hsr => .inr (hsr ▸ hload)) .inl
    · rw [hinsert, Finset.card_insert_of_notMem hnew, hscalar]
      omega

/-! ## The stream

The balance of one instruction is added up along the stream. The demands are counted on the
registers that are disputed in the end, and a demand on a register that is disputed later than it
was met does not occur: what an instruction demands has settled with it. -/

/-- What the choices of a selection cost together. -/
def spent (s : Selection) : Nat :=
  Cost.amount (s.choices.map Choice.total)

/-- Over a stream, what the greedy mode spends beyond the fast mode is bounded by the demands of the
latter on the registers in dispute. Induction on the stream, from any two tables that are parted. -/
theorem walk_parted {is : List Instr} {k : Nat} {fast greedy : Selection} (h : Parted a b)
    (hfast : (walk gpu .fast env k a is).result = .ok fast)
    (hgreedy : (walk gpu .greedy env k b is).result = .ok greedy) :
    let ds := (placed k is fast.choices).map Prod.snd
    Parted fast.banks greedy.banks ∧
      (∀ r ∈ disputes fast.banks greedy.banks,
        r ∈ disputes a b ∨ ∃ i ∈ is, env.DivergentLoad i r) ∧
      greedy.spent + 2 * (disputes fast.banks greedy.banks).card +
          disputedDemands fast.banks greedy.banks .scalar ds ≤
        fast.spent + 2 * (disputes a b).card +
          disputedDemands fast.banks greedy.banks .vector ds := by
  induction is generalizing k a b fast greedy with
  | nil =>
    cases hfast
    cases hgreedy
    exact ⟨h, fun r hr => .inl hr, Nat.le_refl _⟩
  | cons i is ih =>
    obtain ⟨own, _, a', fast, hown, hsettle, hlast, rfl⟩ := walk_cons_eq_ok.1 hfast
    obtain ⟨chosen, _, b', greedy, hchosen, hsettle', hlast', rfl⟩ := walk_cons_eq_ok.1 hgreedy
    obtain ⟨hm, hpaid⟩ := choose_fast_eq_ok hown
    obtain ⟨m, later, hm', hlater, hcheapest⟩ := choose_greedy_eq_ok hchosen
    cases hm.symm.trans hm'
    have hfilled := (settle_eq_ok hsettle).1
    obtain ⟨hparted, hloads, hstep⟩ := h.step hm hlater hpaid hcheapest hfilled
      (settle_eq_ok hsettle').1
    obtain ⟨hparted', hloads', hrest⟩ := ih hparted hlast hlast'
    refine ⟨hparted', fun r hr => ?_, ?_⟩
    · obtain hr | ⟨j, hj, hload⟩ := hloads' r hr
      · obtain hr | hload := hloads r hr
        · exact .inl hr
        · exact .inr ⟨i, List.mem_cons_self, hload⟩
      · exact .inr ⟨j, List.mem_cons_of_mem i hj, hload⟩
    · -- what this instruction demands lives somewhere, so it is as disputed now as at the end
      have hdemands : ∀ x, disputedDemands fast.banks greedy.banks x (own.mapping.demands i) =
          disputedDemands a' b' x (own.mapping.demands i) := by
        refine fun x => disputedDemands_congr fun d hd _ => ?_
        exact hparted.mem_disputes_iff (walk_eq_ok hlast).2.1.extends
          (walk_eq_ok hlast').2.1.extends (hfilled.isSome_of_mem hd)
      rw [placed_cons_demands, disputedDemands_append, disputedDemands_append, hdemands, hdemands]
      simp only [spent, List.map_cons, Cost.amount_cons] at hrest ⊢
      omega

/-- How many of the demands are on one register and for one bank. -/
def demandsOn (r : Reg) (x : Bank) (ds : List Demand) : Nat :=
  ds.countP fun d => d.reg = r ∧ d.value.bank = x

/-- Counting the demands register by register comes to counting them all. -/
theorem sum_demandsOn (s : Finset Reg) (x : Bank) (ds : List Demand) :
    ∑ r ∈ s, demandsOn r x ds = ds.countP fun d => d.reg ∈ s ∧ d.value.bank = x := by
  unfold demandsOn
  induction ds with
  | nil => simp
  | cons d ds ih =>
    simp only [List.countP_cons, Finset.sum_add_distrib, ih]
    congr 1
    by_cases hx : d.value.bank = x <;> simp [hx, Finset.sum_ite_eq]

/-- Over any stream, the greedy mode costs more than the fast mode by no more than this: for each
disputed register, the demands of the fast mode for it in the vector bank, less two, and less those
in the scalar bank. Only a divergent load can begin a dispute. -/
theorem run_modes {instrs : List Instr} {fast greedy : Selection} {f g : Nat}
    (hfast : (run gpu .fast env instrs).result = .ok fast)
    (hgreedy : (run gpu .greedy env instrs).result = .ok greedy)
    (hf : fast.totalCost = .ok f) (hg : greedy.totalCost = .ok g) :
    let ds := (placed 0 instrs fast.choices).map Prod.snd
    let disputed := disputes fast.banks greedy.banks
    (∀ r ∈ disputed, fast.bankOf r = some .vector ∧ greedy.bankOf r = some .scalar ∧
        ∃ i ∈ instrs, env.DivergentLoad i r) ∧
      g + ∑ r ∈ disputed, (2 + demandsOn r .scalar ds) ≤
        f + ∑ r ∈ disputed, demandsOn r .vector ds ∧
      ((∀ r ∈ disputed, demandsOn r .vector ds ≤ 2 + demandsOn r .scalar ds) → g ≤ f) := by
  intro ds disputed
  obtain ⟨banks, hseed, hwalk⟩ := run_eq_ok.1 hfast
  obtain ⟨banks', hseed', hwalk'⟩ := run_eq_ok.1 hgreedy
  cases hseed.symm.trans hseed'
  obtain ⟨hparted, hloads, hspent⟩ := walk_parted (.self banks) hwalk hwalk'
  rw [disputes_self, Finset.card_empty, Nat.mul_zero, Nat.add_zero, Nat.add_assoc] at hspent
  have htotals : g + ∑ r ∈ disputed, (2 + demandsOn r .scalar ds) ≤
      f + ∑ r ∈ disputed, demandsOn r .vector ds := by
    have hsum : ∑ r ∈ disputed, (2 + demandsOn r .scalar ds) =
        2 * disputed.card + disputedDemands fast.banks greedy.banks .scalar ds := by
      rw [Finset.sum_add_distrib, Finset.sum_const_nat fun _ _ => rfl, Nat.mul_comm, sum_demandsOn]
      rfl
    have hsum' : ∑ r ∈ disputed, demandsOn r .vector ds =
        disputedDemands fast.banks greedy.banks .vector ds := sum_demandsOn disputed .vector ds
    rw [hsum, hsum', (Cost.sum_eq_ok_iff.1 hf).1, (Cost.sum_eq_ok_iff.1 hg).1]
    exact hspent
  refine ⟨fun r hr => ?_, htotals, fun hdemands => ?_⟩
  · obtain ⟨hvector, hscalar⟩ := hparted r hr
    refine ⟨hvector, hscalar, (hloads r hr).resolve_left ?_⟩
    rw [disputes_self]
    exact Finset.notMem_empty r
  · have hle := Finset.sum_le_sum hdemands
    omega

/-- A value that is loaded from a scalar address and stored: the greedy mode diverts it, and saves
at the load what it loses at the store. -/
theorem run_modes_store :
    let env : Env := ⟨fun r => if r = ⟨1⟩ then some 32 else some 64,
      fun r => if r = ⟨0⟩ then some .sreg64 else none, fun _ => false⟩
    let instrs : List Instr := [⟨.load, [.reg ⟨1⟩, .reg ⟨0⟩], 1, [.divergent], by decide⟩,
      ⟨.store, [.reg ⟨1⟩, .reg ⟨2⟩], 0, [.divergent], by decide⟩]
    ∃ fast greedy f g, (run gpu .fast env instrs).result = .ok fast ∧
      (run gpu .greedy env instrs).result = .ok greedy ∧ fast.totalCost = .ok f ∧
      greedy.totalCost = .ok g ∧ disputes fast.banks greedy.banks = {⟨1⟩} ∧ g ≤ f := by
  intro env instrs
  obtain ⟨_, _, hle⟩ := run_modes (show (run gpu .fast env instrs).result = .ok _ from rfl)
    (show (run gpu .greedy env instrs).result = .ok _ from rfl) rfl rfl
  exact ⟨_, _, _, _, rfl, rfl, rfl, rfl, by decide, hle (by decide)⟩

/-- The same with a second store: now the greedy mode is dearer. -/
theorem greedy_dearer :
    let env : Env := ⟨fun r => if r = ⟨1⟩ then some 32 else some 64,
      fun r => if r = ⟨0⟩ then some .sreg64 else none, fun _ => false⟩
    let store : Instr := ⟨.store, [.reg ⟨1⟩, .reg ⟨2⟩], 0, [.divergent], by decide⟩
    let instrs : List Instr := [⟨.load, [.reg ⟨1⟩, .reg ⟨0⟩], 1, [.divergent], by decide⟩, store,
      store]
    ∃ fast greedy f g, (run gpu .fast env instrs).result = .ok fast ∧
      (run gpu .greedy env instrs).result = .ok greedy ∧ fast.totalCost = .ok f ∧
      greedy.totalCost = .ok g ∧ f < g :=
  ⟨_, _, 4, 5, rfl, rfl, rfl, rfl, by decide⟩

end Lowering.Selection
