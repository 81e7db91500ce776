import Lowering.Proofs.Prices
import Lowering.Proofs.Settling
import Lowering.Target.Gpu

/-!
# Lowering — the choices for a load

Only a load has alternatives, and its own mapping and all alternatives are mappings of two register
operands, the value and the address (`Gpu.load_eq_ok`, `Gpu.alternatives_eq_ok`). Copies cost one
each and no alternative costs less than the target's own mapping, so an alternative is seldom chosen
(`Gpu.cheaper_load`), and with one exception its choice leaves the banks as they would have been
(`Gpu.choice_cases`): where a load is divergent, one of its registers is scalar and the other lives
nowhere, the other settles in the scalar bank and not in the vector bank.
-/

namespace Lowering

namespace Selection

/-- If the register lives nowhere, both lists of demands settle it in the same bank. -/
def SettlesAlike (banks : RegMap Bank) (ds es : List Demand) (r : Reg) : Prop :=
  banks[r]? = none → firstDemand es r = firstDemand ds r

/-- The register lives nowhere. The first demands are for the vector bank wherever they are on it, and
the second settle it in the scalar bank. -/
structure Diverted (banks : RegMap Bank) (ds es : List Demand) (r : Reg) : Prop where
  nowhere : banks[r]? = none
  vector : firstDemand ds r = some .vector
  scalar : firstDemand es r = some .scalar
  only : ∀ d ∈ ds, d.reg = r → d.value.bank = .vector

end Selection

open Selection

/-- The instruction is a load of the register, or of an address in it, and that address may differ
between lanes. -/
def Env.DivergentLoad (env : Env) (i : Instr) (r : Reg) : Prop :=
  i.opcode = .load ∧ env.uniform i = false ∧ r ∈ i.regs

namespace Gpu

variable {env : Env} {banks : RegMap Bank} {i : Instr} {m : InstrMapping} {x y : ValueMapping}
  {cost : Nat} {v a : Reg}

/-! ## The mappings of a load

A load is mapped in its own way or in one of three others, and all four are `Gpu.pair` at some
costs, banks and widths. Two demands come of each: the value in slot zero and the address in slot
one. -/

/-- The mapping of value and address, for an instruction that has both. -/
def pair (cost : Nat) (i : Instr) (value address : ValueMapping) : InstrMapping :=
  ⟨cost, hint, ⟨((List.replicate i.numOperands none).set 0 (some value)).set 1 (some address)⟩⟩

/-- Value and address are mapped for any instruction with two operands at least. -/
theorem valueAndAddress_eq_ok_iff :
    valueAndAddress cost i x y = .ok m ↔ 2 ≤ i.numOperands ∧ m = pair cost i x y := by
  constructor
  · intro h
    obtain ⟨first, hfirst, h⟩ := Fault.bind_eq_ok.1 h
    obtain ⟨second, hsecond, h⟩ := Fault.bind_eq_ok.1 h
    obtain ⟨_, rfl⟩ := OperandMap.set_eq_ok_iff.1 hfirst
    obtain ⟨hlt, rfl⟩ := OperandMap.set_eq_ok_iff.1 hsecond
    -- the second slot was there to be set
    refine ⟨?_, (InstrMapping.covering_eq_ok_iff.1 h).2⟩
    simp only [OperandMap.size, OperandMap.absent, List.length_set, List.length_replicate] at hlt
    exact hlt
  · rintro ⟨hle, rfl⟩
    refine Fault.bind_eq_ok.2 ⟨_, OperandMap.set_eq_ok_iff.2 ⟨?_, rfl⟩, Fault.bind_eq_ok.2
      ⟨_, OperandMap.set_eq_ok_iff.2 ⟨?_, rfl⟩, InstrMapping.covering_eq_ok_iff.2 ⟨?_, rfl⟩⟩⟩
    all_goals simp only [OperandMap.size, OperandMap.absent, List.length_set, List.length_replicate]
    all_goals omega

/-- Nothing is demanded of the operands behind the first two. -/
theorem get?_pair (k : Nat) : (pair cost i x y).operands.get? (k + 2) = none := by
  unfold OperandMap.get? pair
  rw [List.getElem?_set_ne (by omega), List.getElem?_set_ne (by omega), List.getElem?_replicate]
  split <;> rfl

/-- A mapping of value and address demands these two and nothing else. Both operands are registers
here; where a register is both, it is demanded twice. -/
theorem demands_pair (hv : i.operands[0]? = some (.reg v)) (ha : i.operands[1]? = some (.reg a)) :
    (pair cost i x y).demands i = [⟨0, v, x⟩, ⟨1, a, y⟩] := by
  -- the first two operands and the others, of which nothing is demanded
  obtain ⟨rest, hoperands⟩ : ∃ rest, i.operands = .reg v :: .reg a :: rest := by
    cases hoperands : i.operands with
    | nil =>
      rw [hoperands] at hv
      cases hv
    | cons first tail =>
      cases tail with
      | nil =>
        rw [hoperands] at ha
        cases ha
      | cons second rest =>
        rw [hoperands] at hv ha
        cases hv
        cases ha
        exact ⟨rest, rfl⟩
  have hvalue : (pair cost i x y).operands.get? 0 = some x := by
    simp [OperandMap.get?, pair, Instr.numOperands, hoperands]
  have haddress : (pair cost i x y).operands.get? 1 = some y := by
    simp [OperandMap.get?, pair, Instr.numOperands, hoperands]
  have hregs : i.regOperands =
      (0, v) :: (1, a) :: (rest.zipIdx 2).filterMap fun p => p.1.reg?.map (p.2, ·) := by
    unfold Instr.regOperands
    rw [hoperands]
    rfl
  unfold InstrMapping.demands
  rw [hregs, List.filterMap_cons, List.filterMap_cons]
  simp only [hvalue, haddress, Option.map_some]
  congr 2
  rw [List.filterMap_eq_nil_iff]
  rintro ⟨k, r⟩ hmem
  obtain ⟨⟨op, j⟩, hzip, hreg⟩ := List.mem_filterMap.1 hmem
  obtain ⟨r', _, heq⟩ := Option.map_eq_some_iff.1 hreg
  cases heq
  -- the others stand in slots from 2 on
  obtain ⟨n, rfl⟩ := Nat.exists_eq_add_of_le' (List.le_snd_of_mem_zipIdx hzip)
  simp only [get?_pair, Option.map_none]

/-- An operand has a width exactly if it is a register of known width. -/
theorem operandWidth_eq_ok_iff {k : Nat} {w : UInt32} :
    operandWidth env i k = .ok w ↔ ∃ r, i.operands[k]? = some (.reg r) ∧ env.width r = some w := by
  constructor
  · intro h
    obtain ⟨op, hop, h⟩ := Fault.bind_eq_ok.1 h
    rw [Instr.operandAt_eq_ok_iff] at hop
    cases op with
    | reg r => exact ⟨r, hop, Env.resolveWidth_eq_ok_iff.1 h⟩
    | imm v => cases h
    | symbol name => cases h
  · rintro ⟨r, hop, hw⟩
    exact Fault.bind_eq_ok.2 ⟨_, Instr.operandAt_eq_ok_iff.2 hop, Env.resolveWidth_eq_ok_iff.2 hw⟩

/-- The bank in which the target itself would have value and address of a load. -/
def loadBank (env : Env) (i : Instr) : Bank :=
  if env.uniform i then .scalar else .vector

/-- The target's own mapping of a load: value and address are registers, and both are wanted in the
bank that goes with the address. -/
theorem load_eq_ok (h : (load env i).result = .ok m) :
    ∃ v a wv wa, i.operands[0]? = some (.reg v) ∧ i.operands[1]? = some (.reg a) ∧
      m = pair 1 i ⟨loadBank env i, wv⟩ ⟨loadBank env i, wa⟩ := by
  obtain ⟨wv, hwv, h⟩ := Traced.bind_eq_ok.1 h
  obtain ⟨wa, hwa, h⟩ := Traced.bind_eq_ok.1 h
  obtain ⟨_, _, h⟩ := Traced.bind_eq_ok.1 h
  obtain ⟨v, hv, _⟩ := operandWidth_eq_ok_iff.1 hwv
  obtain ⟨a, ha, _⟩ := operandWidth_eq_ok_iff.1 hwa
  exact ⟨v, a, wv, wa, hv, ha, (valueAndAddress_eq_ok_iff.1 h).2⟩

/-- The rule of a load is what it is mapped by. -/
theorem mapping_of_load (hload : i.opcode = .load) : gpu.mapping env i = load env i := by
  change mapping env i = _
  unfold mapping
  rw [hload]
  rfl

/-- Only a load has alternatives. -/
theorem alternatives_eq_ok {ms : List InstrMapping} (h : alternatives env i = .ok ms) :
    ms = [] ∨ i.opcode = .load ∧ ∃ w, ms = loadChoices.map fun (cost, valueBank, addressBank) =>
      pair cost i ⟨valueBank, w⟩ ⟨addressBank, pointerWidth⟩ := by
  unfold alternatives at h
  by_cases hrule : i.opcode.rule?.any Rule.hasAlternatives
  · rw [if_pos hrule] at h
    obtain ⟨w, _, h⟩ := Fault.bind_eq_ok.1 h
    -- each alternative is the pair of its banks, and none of them can differ from it
    refine .inr ⟨Opcode.hasAlternatives_iff.1 hrule, w, Fault.mapM_eq_ok ?_ h⟩
    rintro ⟨cost, valueBank, addressBank⟩ m hm
    exact (valueAndAddress_eq_ok_iff.1 hm).2
  · rw [if_neg hrule] at h
    cases h
    exact .inl rfl

/-! ## What is cheaper than the target's own mapping

On this target a copy costs one, so the price of a mapping is its cost and the number of registers
that live in another bank than demanded. With two registers at the most this is a matter of a few
cases. -/

/-- The copies for a register with some home that is demanded in a bank. -/
def copies (home : Option Bank) (b : Bank) : Nat :=
  if home.any (· ≠ b) then 1 else 0

/-- The copies of a mapping of value and address, one register at a time. -/
theorem countP_misplaced_pair (hv : i.operands[0]? = some (.reg v))
    (ha : i.operands[1]? = some (.reg a)) :
    ((pair cost i x y).demands i).countP (misplaced banks) =
      copies banks[v]? x.bank + copies banks[a]? y.bank := by
  rw [demands_pair hv ha, List.countP_cons, List.countP_cons, List.countP_nil, Nat.zero_add,
    Nat.add_comm]
  rfl

/-- The bank that such a mapping would settle a register in. If value and address are in one
register, the demand for the value comes first. -/
theorem firstDemand_pair (hv : i.operands[0]? = some (.reg v))
    (ha : i.operands[1]? = some (.reg a)) (r : Reg) :
    firstDemand ((pair cost i x y).demands i) r =
      if v = r then some x.bank else if a = r then some y.bank else none := by
  rw [demands_pair hv ha, firstDemand_cons, firstDemand_cons]
  rfl

/-- Mappings of value and address settle all other registers alike, and these two if they live
somewhere. -/
theorem settlesAlike_pair {cost' : Nat} {x' y' : ValueMapping}
    (hv : i.operands[0]? = some (.reg v)) (ha : i.operands[1]? = some (.reg a)) {r : Reg}
    (hvalue : v = r → banks[v]?.isSome) (haddress : a = r → banks[a]?.isSome) :
    SettlesAlike banks ((pair cost i x y).demands i) ((pair cost' i x' y').demands i) r := by
  intro hnone
  -- a register that lives nowhere is neither of the two
  have hvr : v ≠ r := by
    rintro rfl
    simpa [hnone] using hvalue rfl
  have har : a ≠ r := by
    rintro rfl
    simpa [hnone] using haddress rfl
  rw [firstDemand_pair hv ha, firstDemand_pair hv ha, if_neg hvr, if_neg har, if_neg hvr,
    if_neg har]

theorem copies_le_one (home : Option Bank) (b : Bank) : copies home b ≤ 1 := by
  unfold copies
  split <;> omega

theorem isSome_of_copies {home : Option Bank} {b : Bank} (h : copies home b = 1) :
    home.isSome := by
  cases home with
  | none => cases h
  | some _ => rfl

/-- An alternative is cheaper than a load in one bank only if both registers live somewhere, or if
the one bank is the vector bank, one register is scalar and the other lives nowhere. The alternative
is all scalar then. -/
theorem cheaper_load {home home' : Option Bank} {b valueBank addressBank : Bank}
    (hchoice : (cost, valueBank, addressBank) ∈ loadChoices)
    (hlt : cost + (copies home valueBank + copies home' addressBank) <
      1 + (copies home b + copies home' b)) :
    (home.isSome ∧ home'.isSome) ∨
      b = .vector ∧ valueBank = .scalar ∧ addressBank = .scalar ∧
        (home = some .scalar ∧ home' = none ∨ home = none ∧ home' = some .scalar) := by
  have hle := copies_le_one home b
  have hle' := copies_le_one home' b
  simp only [loadChoices, List.mem_cons, Prod.mk.injEq, List.not_mem_nil, or_false] at hchoice
  -- the three alternatives: all scalar, all vector, and one of each
  obtain ⟨rfl, rfl, rfl⟩ | ⟨rfl, rfl, rfl⟩ | ⟨rfl, rfl, rfl⟩ := hchoice
  · cases b with
    | scalar => omega
    | vector =>
      rcases home with _ | _ | _ <;> rcases home' with _ | _ | _ <;> simp [copies] at hlt ⊢
  · -- all vector costs one more, and has to save two copies
    have hboth : copies home b = 1 ∧ copies home' b = 1 := by omega
    exact .inl ⟨isSome_of_copies hboth.1, isSome_of_copies hboth.2⟩
  · omega

/-- The target wants a load in the vector bank only where its address may differ between lanes. -/
theorem uniform_of_loadBank (h : loadBank env i = .vector) : env.uniform i = false := by
  unfold loadBank at h
  split at h
  · cases h
  · next hne => simpa using hne

/-- The choice for a load when it is not the target's own mapping. It may settle every register as
that mapping would. If not, the load is divergent and there is one register that it settles
differently, which lived nowhere: it comes to the scalar bank instead of the vector bank. -/
theorem load_diverted {w wv wa : UInt32} {valueBank addressBank : Bank} (hload : i.opcode = .load)
    (hv : i.operands[0]? = some (.reg v)) (ha : i.operands[1]? = some (.reg a))
    (hchoice : (cost, valueBank, addressBank) ∈ loadChoices)
    (hlt : cost + (copies banks[v]? valueBank + copies banks[a]? addressBank) <
      1 + (copies banks[v]? (loadBank env i) + copies banks[a]? (loadBank env i))) :
    let own := (pair 1 i ⟨loadBank env i, wv⟩ ⟨loadBank env i, wa⟩).demands i
    let chosen := (pair cost i ⟨valueBank, w⟩ ⟨addressBank, pointerWidth⟩).demands i
    (∀ r, SettlesAlike banks own chosen r) ∨
      ∃ r, env.DivergentLoad i r ∧ Diverted banks own chosen r ∧
        ∀ s, s ≠ r → SettlesAlike banks own chosen s := by
  intro own chosen
  obtain ⟨hvalue, haddress⟩ | ⟨hbank, rfl, rfl, hhomes⟩ := cheaper_load hchoice hlt
  · exact .inl fun r => settlesAlike_pair hv ha (fun _ => hvalue) fun _ => haddress
  right
  have huniform := uniform_of_loadBank hbank
  -- the target itself would have both registers in the vector bank
  have honly : ∀ d ∈ own, d.value.bank = .vector := by
    intro d hd
    rw [show own = _ from demands_pair hv ha, hbank, List.mem_pair] at hd
    rcases hd with rfl | rfl <;> rfl
  obtain ⟨hvalue, haddress⟩ | ⟨hvalue, haddress⟩ := hhomes
  · have hne : v ≠ a := by
      rintro rfl
      cases hvalue.symm.trans haddress
    refine ⟨a, ⟨hload, huniform, Instr.mem_regs.2 (List.mem_of_getElem? ha)⟩,
      ⟨haddress, ?_, ?_, fun d hd _ => honly d hd⟩, ?_⟩
    · rw [firstDemand_pair hv ha, if_neg hne, if_pos rfl, hbank]
    · rw [firstDemand_pair hv ha, if_neg hne, if_pos rfl]
    · intro s hs
      exact settlesAlike_pair hv ha (fun _ => by simp [hvalue]) fun h => absurd h.symm hs
  · refine ⟨v, ⟨hload, huniform, Instr.mem_regs.2 (List.mem_of_getElem? hv)⟩,
      ⟨hvalue, ?_, ?_, fun d hd _ => honly d hd⟩, ?_⟩
    · rw [firstDemand_pair hv ha, if_pos rfl, hbank]
    · rw [firstDemand_pair hv ha, if_pos rfl]
    · intro s hs
      exact settlesAlike_pair hv ha (fun h => absurd h.symm hs) fun _ => by simp [haddress]

/-- A copy to another bank costs one on this target, at any width. -/
theorem copyCost_gpu (b b' : Bank) (w : UInt32) :
    gpu.copyCost b b' w = .ok (if b = b' then 0 else 1) :=
  rfl

theorem copyCost_answers (b b' : Bank) (w : UInt32) : ∃ cost, gpu.copyCost b b' w = .ok cost :=
  ⟨_, copyCost_gpu b b' w⟩

/-- The choice for an instruction settles every register as the target's own mapping would and costs
no more, or it settles one register in the other bank and costs less. -/
theorem choice_cases {later : List InstrMapping} {chosen : InstrMapping} {total : Nat}
    (hown : (gpu.mapping env i).result = .ok m)
    (hlater : (gpu.alternatives env i).result = .ok later)
    (h : FirstCheapest gpu banks i (m :: later) chosen total) :
    ∃ p, IsPrice gpu banks i m p ∧
      (total ≤ p ∧ (∀ r, SettlesAlike banks (m.demands i) (chosen.demands i) r) ∨
        total < p ∧ ∃ r, env.DivergentLoad i r ∧ Diverted banks (m.demands i) (chosen.demands i) r ∧
          ∀ s, s ≠ r → SettlesAlike banks (m.demands i) (chosen.demands i) s) := by
  obtain rfl | ⟨hmem, p, hp, hlt⟩ := h.eq_or_lt
  · exact ⟨total, h.isPrice, .inl ⟨Nat.le_refl _, fun _ _ => rfl⟩⟩
  refine ⟨p, hp, ?_⟩
  obtain rfl | ⟨hload, w, rfl⟩ := alternatives_eq_ok hlater
  · cases hmem
  obtain ⟨⟨cost, valueBank, addressBank⟩, hchoice, rfl⟩ := List.mem_map.1 hmem
  rw [mapping_of_load hload] at hown
  obtain ⟨v, a, wv, wa, hv, ha, rfl⟩ := load_eq_ok hown
  have hcheaper := hlt
  rw [h.isPrice.eq_misplaced copyCost_gpu, hp.eq_misplaced copyCost_gpu,
    countP_misplaced_pair hv ha, countP_misplaced_pair hv ha] at hcheaper
  obtain hsame | hdiverted := load_diverted hload hv ha hchoice hcheaper
  · exact .inl ⟨Nat.le_of_lt hlt, hsame⟩
  · exact .inr ⟨hlt, hdiverted⟩

end Gpu

end Lowering
