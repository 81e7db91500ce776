import Lowering.Proofs.Demands

/-!
# Lowering — the banks that a selection settles

A register that is constrained to a class starts in the bank of the class, and any other settles in
the bank that is demanded of it first; after that it stays. So the banks that selection ends with
can be read off the constraints and the chosen mappings (`Selection.seed_eq_ok`,
`Selection.walk_eq_ok`), and a copy that is decided upon in the middle of the stream is one against
the banks at its end, since these extend the banks as they stood (`Selection.Repaired.mono`).
-/

namespace Lowering.Selection

variable {t : Target} {mode : Mode} {env : Env}

/-! ## Bank tables

Tables are compared by what they record of each register, and never by how they came about. One
table extends another if it changes nothing of it; it fills another if what it has besides comes
from the demands. -/

/-- Every bank that the first table records is recorded in the second. -/
def Extends (a b : RegMap Bank) : Prop :=
  ∀ (r : Reg) (x : Bank), a[r]? = some x → b[r]? = some x

theorem Extends.refl (a : RegMap Bank) : Extends a a :=
  fun _ _ h => h

theorem Extends.trans {a b c : RegMap Bank} (hab : Extends a b) (hbc : Extends b c) : Extends a c :=
  fun r x h => hbc r x (hab r x h)

/-- The bank that is demanded of a register first. -/
def firstDemand (ds : List Demand) (r : Reg) : Option Bank :=
  (ds.find? fun d => d.reg = r).map fun d => d.value.bank

/-- The first of some demands is the first one for its own register, and for any other register
nothing. -/
theorem firstDemand_cons (d : Demand) (ds : List Demand) (r : Reg) :
    firstDemand (d :: ds) r = if d.reg = r then some d.value.bank else firstDemand ds r := by
  unfold firstDemand
  rw [List.find?_cons]
  by_cases h : d.reg = r <;> simp [h]

/-- The first demand on a register is in the first part, if there is one in it. -/
theorem firstDemand_append (a b : List Demand) (r : Reg) :
    firstDemand (a ++ b) r = (firstDemand a r).or (firstDemand b r) := by
  unfold firstDemand
  rw [List.find?_append, Option.map_or]

theorem firstDemand_eq_none {ds : List Demand} {r : Reg} :
    firstDemand ds r = none ↔ ∀ d ∈ ds, d.reg ≠ r := by
  unfold firstDemand
  rw [Option.map_eq_none_iff, List.find?_eq_none]
  simp

theorem exists_mem_of_firstDemand {ds : List Demand} {r : Reg} {b : Bank}
    (h : firstDemand ds r = some b) : ∃ d ∈ ds, d.reg = r ∧ d.value.bank = b := by
  obtain ⟨d, hfind, hb⟩ := Option.map_eq_some_iff.1 h
  exact ⟨d, List.mem_of_find?_eq_some hfind, by simpa using List.find?_some hfind, hb⟩

/-- The second table is the first one with the banks demanded first of the registers that had
none. -/
def Filled (a : RegMap Bank) (ds : List Demand) (b : RegMap Bank) : Prop :=
  ∀ r : Reg, b[r]? = a[r]?.or (firstDemand ds r)

/-- Filling a table keeps what it records. -/
theorem Filled.extends {a b : RegMap Bank} {ds : List Demand} (h : Filled a ds b) :
    Extends a b := by
  intro r x hr
  rw [h r, hr]
  rfl

/-- Every register that is demanded has a bank in the second table. -/
theorem Filled.isSome_of_mem {a b : RegMap Bank} {ds : List Demand} (h : Filled a ds b) {d : Demand}
    (hd : d ∈ ds) : (b[d.reg]?).isSome := by
  rw [h d.reg, Option.isSome_or, Bool.or_eq_true]
  refine .inr ?_
  rw [Option.isSome_iff_ne_none]
  exact fun hnone => firstDemand_eq_none.1 hnone d hd rfl

/-- Demands in two parts fill a table one part after the other. -/
theorem Filled.append {a b c : RegMap Bank} {ds es : List Demand} (hab : Filled a ds b)
    (hbc : Filled b es c) : Filled a (ds ++ es) c := by
  intro r
  rw [hbc r, hab r, firstDemand_append, Option.or_assoc]

/-- A demand on a register that has a bank fills nothing. -/
theorem Filled.cons_placed {a b : RegMap Bank} {d : Demand} {ds : List Demand} {x : Bank}
    (hd : a[d.reg]? = some x) (h : Filled a ds b) : Filled a (d :: ds) b := by
  intro r
  rw [h r, firstDemand_cons]
  by_cases hr : d.reg = r
  · rw [← hr, hd]
    rfl
  · rw [if_neg hr]

/-- A demand on a register without a bank fills it in, and later demands on the register find it
there. -/
theorem Filled.cons_insert {a b : RegMap Bank} {d : Demand} {ds : List Demand}
    (hd : a[d.reg]? = none) (h : Filled (a.insert d.reg d.value.bank) ds b) :
    Filled a (d :: ds) b := by
  intro r
  rw [h r, RegMap.getElem?_insert, firstDemand_cons]
  by_cases hr : d.reg = r
  · rw [if_pos hr, if_pos hr, ← hr, hd]
    rfl
  · rw [if_neg hr, if_neg hr]

/-! ## Copies

Whether an operand is copied is decided by the table as it stands when the instruction is settled.
`Repaired` says of any one table which copies it calls for, so that the copies may be compared with
a later table than the one they were decided against. -/

/-- The copies for some demands as the table stands: one for each demand for another bank than the
one recorded, at its cost. Every register that is demanded has a bank in the table. -/
inductive Repaired (t : Target) (banks : RegMap Bank) :
    List (Nat × Demand) → List Repair → Prop where
  | nil : Repaired t banks [] []
  | stay {k : Nat} {d : Demand} {ds : List (Nat × Demand)} {rs : List Repair}
      (hbank : banks[d.reg]? = some d.value.bank) (hrest : Repaired t banks ds rs) :
      Repaired t banks ((k, d) :: ds) rs
  | copy {k : Nat} {d : Demand} {ds : List (Nat × Demand)} {rs : List Repair} {b : Bank}
      {cost : Nat} (hbank : banks[d.reg]? = some b) (hne : b ≠ d.value.bank)
      (hcost : t.copyCost b d.value.bank d.value.width = .ok cost)
      (hrest : Repaired t banks ds rs) :
      Repaired t banks ((k, d) :: ds)
        (⟨k, d.operand, d.reg, b, d.value.bank, d.value.width, cost⟩ :: rs)

namespace Repaired

variable {banks : RegMap Bank} {ds es : List (Nat × Demand)} {rs qs : List Repair}

/-- What is copied does not change when registers without a bank are given one. -/
theorem mono {banks' : RegMap Bank} (h : Repaired t banks ds rs) (hext : Extends banks banks') :
    Repaired t banks' ds rs := by
  induction h with
  | nil => exact .nil
  | stay hbank _ ih => exact .stay (hext _ _ hbank) ih
  | copy hbank hne hcost _ ih => exact .copy (hext _ _ hbank) hne hcost ih

theorem append (h : Repaired t banks ds rs) (h' : Repaired t banks es qs) :
    Repaired t banks (ds ++ es) (rs ++ qs) := by
  induction h with
  | nil => exact h'
  | stay hbank _ ih => exact .stay hbank ih
  | copy hbank hne hcost _ ih => exact .copy hbank hne hcost ih

end Repaired

/-! ## The constraints

Registers are constrained before the first instruction, in the order in which they are used. A
register may come up more than once, and is given the same bank every time, so the order does not
show in the end. -/

/-- The table with the bank of a register that is constrained to a class. -/
def constrain (t : Target) (env : Env) (banks : RegMap Bank) (r : Reg) : RegMap Bank :=
  match env.classOf r with
  | some c => banks.insert r (t.bankOfClass c)
  | none => banks

/-- Constraining a register changes its own bank, if it has a class, and no other. -/
theorem getElem?_constrain (banks : RegMap Bank) (r s : Reg) :
    (constrain t env banks r)[s]? =
      if r = s then ((env.classOf s).map t.bankOfClass).or banks[s]? else banks[s]? := by
  unfold constrain
  cases hc : env.classOf r with
  | none =>
    -- a register without a class is left where it lives, so both sides of the test are the same
    by_cases hr : r = s
    · rw [if_pos hr, ← hr, hc]
      rfl
    · rw [if_neg hr]
  | some c =>
    simp only [RegMap.getElem?_insert]
    by_cases hr : r = s
    · rw [if_pos hr, if_pos hr, ← hr, hc]
      rfl
    · rw [if_neg hr, if_neg hr]

/-- After some registers have been constrained, those among them that have a class live in its bank,
and all others where they did. Induction on the registers. -/
theorem getElem?_foldl_constrain (rs : List Reg) (banks : RegMap Bank) (r : Reg) :
    (rs.foldl (constrain t env) banks)[r]? =
      if r ∈ rs then ((env.classOf r).map t.bankOfClass).or banks[r]? else banks[r]? := by
  induction rs generalizing banks with
  | nil => simp
  | cons s rs ih =>
    rw [List.foldl_cons, ih, getElem?_constrain]
    by_cases hs : s = r
    · -- the register may come again, and is then given the same bank
      have hmem : r ∈ s :: rs := by simp [hs]
      rw [if_pos hs, if_pos hmem]
      by_cases hr : r ∈ rs
      · rw [if_pos hr, ← Option.or_assoc, Option.or_self]
      · rw [if_neg hr]
    · simp [hs, Ne.symm hs]

/-- Constraining the registers of a stream never fails, and the constraints that are logged on the
way do not change the table. -/
theorem seed_result (instrs : List Instr) :
    (seed t env instrs).result = .ok ((instrs.flatMap Instr.regs).foldl (constrain t env) ∅) := by
  unfold seed
  generalize instrs.flatMap Instr.regs = rs
  generalize (∅ : RegMap Bank) = banks
  induction rs generalizing banks with
  | nil => rfl
  | cons r rs ih =>
    rw [List.foldlM_cons, List.foldl_cons, ← ih, Traced.result_bind]
    unfold constrain
    cases env.classOf r <;> rfl

/-- So a register starts in the bank of its class if it is used in the stream and has one, and
otherwise without a bank. -/
theorem seed_eq_ok {instrs : List Instr} {banks : RegMap Bank}
    (h : (seed t env instrs).result = .ok banks) (r : Reg) :
    banks[r]? =
      if r ∈ instrs.flatMap Instr.regs then (env.classOf r).map t.bankOfClass else none := by
  rw [seed_result] at h
  cases h
  rw [getElem?_foldl_constrain, Std.ExtTreeMap.getElem?_empty, Option.or_none]

/-! ## The demands of one instruction

Demands are met one after the other, in the order of the operands. Each is one of three cases; a
copy may fail to have a cost, so only the cases that succeed are told here. -/

/-- A demand gives a bank to a register that has none, finds the register where it is demanded, or
is met by a copy. -/
theorem settle_cons_eq_ok {k : Nat} {banks banks' : RegMap Bank} {d : Demand} {ds : List Demand}
    {rs : List Repair} :
    (settle t k banks (d :: ds)).result = .ok (rs, banks') ↔
      (banks[d.reg]? = none ∧
        (settle t k (banks.insert d.reg d.value.bank) ds).result = .ok (rs, banks')) ∨
      (banks[d.reg]? = some d.value.bank ∧ (settle t k banks ds).result = .ok (rs, banks')) ∨
      ∃ b cost rs', banks[d.reg]? = some b ∧ b ≠ d.value.bank ∧
        t.copyCost b d.value.bank d.value.width = .ok cost ∧
        (settle t k banks ds).result = .ok (rs', banks') ∧
        rs = ⟨k, d.operand, d.reg, b, d.value.bank, d.value.width, cost⟩ :: rs' := by
  rw [settle]
  cases hd : banks[d.reg]? with
  | none => simp
  | some b =>
    by_cases hb : b = d.value.bank
    · simp [hb]
    · -- a register that lives elsewhere: its copy is priced, and then the others are settled
      simp only [hb, if_false]
      constructor
      · intro h
        obtain ⟨cost, hcost, h⟩ := Traced.bind_eq_ok.1 h
        obtain ⟨_, _, h⟩ := Traced.bind_eq_ok.1 h
        obtain ⟨⟨rs', banks''⟩, hrest, h⟩ := Traced.bind_eq_ok.1 h
        cases h
        exact .inr (.inr ⟨b, cost, rs', rfl, hb, hcost, hrest, rfl⟩)
      · rintro (⟨hnone, _⟩ | ⟨hsome, _⟩ | ⟨b', cost, rs', hsome, _, hcost, hrest, rfl⟩)
        · cases hnone
        · exact absurd (Option.some.inj hsome) hb
        · cases hsome
          exact Traced.bind_eq_ok.2 ⟨cost, hcost, Traced.bind_eq_ok.2 ⟨(), rfl,
            Traced.bind_eq_ok.2 ⟨(rs', banks'), hrest, rfl⟩⟩⟩

/-- Meeting some demands gives banks to the registers that have none, and copies the others. Both
are said in terms of the banks at the end: a bank that is given stays, so looking at the end or on
the way is the same. -/
theorem settle_eq_ok {k : Nat} {banks banks' : RegMap Bank} {ds : List Demand} {rs : List Repair}
    (h : (settle t k banks ds).result = .ok (rs, banks')) :
    Filled banks ds banks' ∧ Repaired t banks' (ds.map (k, ·)) rs := by
  induction ds generalizing banks rs with
  | nil =>
    cases h
    exact ⟨fun r => (Option.or_none).symm, .nil⟩
  | cons d ds ih =>
    obtain ⟨hd, hrest⟩ | ⟨hd, hrest⟩ | ⟨b, cost, rs', hd, hne, hcost, hrest, rfl⟩ :=
      settle_cons_eq_ok.1 h
    · -- nothing is copied for the demand that gave the bank, since the bank stays
      obtain ⟨hfilled, hrepaired⟩ := ih hrest
      have hbank : banks'[d.reg]? = some d.value.bank :=
        hfilled.extends _ _ (by rw [RegMap.getElem?_insert, if_pos rfl])
      exact ⟨hfilled.cons_insert hd, .stay hbank hrepaired⟩
    · obtain ⟨hfilled, hrepaired⟩ := ih hrest
      exact ⟨hfilled.cons_placed hd, .stay (hfilled.extends _ _ hd) hrepaired⟩
    · obtain ⟨hfilled, hrepaired⟩ := ih hrest
      exact ⟨hfilled.cons_placed hd, .copy (hfilled.extends _ _ hd) hne hcost hrepaired⟩

/-! ## The stream

What holds of one instruction and of the others behind it holds of the whole, with the instructions
numbered on. The numbers of the choices are these numbers, so that a choice tells its
instruction. -/

/-- Going over an instruction and the ones behind it: a mapping is chosen and its demands are met,
and the others are gone over from the table that this leaves, with the next number. -/
theorem walk_cons_eq_ok {k : Nat} {banks : RegMap Bank} {i : Instr} {is : List Instr}
    {s : Selection} :
    (walk t mode env k banks (i :: is)).result = .ok s ↔
      ∃ (chosen : Priced) (repairs : List Repair) (mid : RegMap Bank) (later : Selection),
        (choose t mode env banks i).result = .ok chosen ∧
        (settle t k banks (chosen.mapping.demands i)).result = .ok (repairs, mid) ∧
        (walk t mode env (k + 1) mid is).result = .ok later ∧
        s = ⟨⟨k, chosen.mapping, chosen.total⟩ :: later.choices, repairs ++ later.repairs,
          later.banks⟩ := by
  rw [walk]
  constructor
  · intro h
    obtain ⟨chosen, hchosen, h⟩ := Traced.bind_eq_ok.1 h
    obtain ⟨⟨repairs, mid⟩, hsettle, h⟩ := Traced.bind_eq_ok.1 h
    obtain ⟨later, hlater, h⟩ := Traced.bind_eq_ok.1 h
    cases h
    exact ⟨chosen, repairs, mid, later, hchosen, hsettle, hlater, rfl⟩
  · rintro ⟨chosen, repairs, mid, later, hchosen, hsettle, hlater, rfl⟩
    exact Traced.bind_eq_ok.2 ⟨chosen, hchosen, Traced.bind_eq_ok.2 ⟨(repairs, mid), hsettle,
      Traced.bind_eq_ok.2 ⟨later, hlater, rfl⟩⟩⟩

/-- Going over a stream chooses a mapping for each instruction, gives banks to registers in the
order of the demands, and copies what the banks at the end call for. -/
theorem walk_eq_ok {k : Nat} {banks : RegMap Bank} {is : List Instr} {s : Selection}
    (h : (walk t mode env k banks is).result = .ok s) :
    s.choices.map Choice.instr = List.range' k is.length ∧
      Filled banks ((placed k is s.choices).map Prod.snd) s.banks ∧
      Repaired t s.banks (placed k is s.choices) s.repairs := by
  induction is generalizing k banks s with
  | nil =>
    cases h
    exact ⟨rfl, fun r => (Option.or_none).symm, .nil⟩
  | cons i is ih =>
    obtain ⟨chosen, repairs, mid, later, _, hsettle, hlater, rfl⟩ := walk_cons_eq_ok.1 h
    obtain ⟨hfilled, hrepaired⟩ := settle_eq_ok hsettle
    obtain ⟨hnumbers, hfilledLater, hrepairedLater⟩ := ih hlater
    -- numbers, banks and copies of this instruction, each followed by those of the later ones
    refine ⟨?_, ?_, ?_⟩
    · rw [List.map_cons, hnumbers, List.length_cons, List.range'_succ]
    · rw [placed_cons_demands]
      exact hfilled.append hfilledLater
    · -- the copies were decided upon against the banks in the middle, which those at the end extend
      exact (hrepaired.mono hfilledLater.extends).append hrepairedLater

theorem length_choices_of_walk {k : Nat} {banks : RegMap Bank} {is : List Instr} {s : Selection}
    (h : (walk t mode env k banks is).result = .ok s) : s.choices.length = is.length := by
  have hnumbers := congrArg List.length (walk_eq_ok h).1
  rwa [List.length_map, List.length_range'] at hnumbers

/-- Selection constrains the registers and then goes over the stream. -/
theorem run_eq_ok {instrs : List Instr} {s : Selection} :
    (run t mode env instrs).result = .ok s ↔
      ∃ banks, (seed t env instrs).result = .ok banks ∧
        (walk t mode env 0 banks instrs).result = .ok s :=
  Traced.bind_eq_ok

end Lowering.Selection
