import Lowering.Proofs.OneBank
import Lowering.Proofs.ReadInstr

/-!
# Lowering — selection comes to its end

On the target with scalar and vector registers, selection can only be kept from its end by an
instruction that is not measured, since copies always have a cost. Where all instructions are, only
a sum of costs can leave its 32 bits, and for that some instruction needs nearly as many register
operands as there are costs (`Selection.run_endsIf`).

Reading refuses an instruction whose operands its rule could not use. So whatever text is accepted,
if all its registers have types then every mapping query is answered and selection comes to its end
with one choice for each instruction (`Routine.parse_selects`).
-/

namespace Lowering

/-! ## Ending but for overflows

Most steps of selection can fail for no other reason than that a sum of costs grows too large.
`EndsIf` keeps the condition under which even that is excluded, so that it can be carried through
sequences and folds without splitting cases at every sum. -/

/-- The computation ends with a value, or a cost overflows, which it does not if costs are small. -/
def Fault.EndsIf {α : Type} (small : Prop) (x : Except Fault α) : Prop :=
  (∃ a, x = .ok a) ∨ ¬ small ∧ x = .error .addOverflow

namespace Fault.EndsIf

variable {α β : Type} {small small' : Prop} {x : Except Fault α}

theorem ok (h : ∃ a, x = .ok a) : EndsIf small x :=
  .inl h

/-- If costs are small under a stronger condition, the weaker one may be forgotten. -/
theorem mono (h : EndsIf small x) (hsmall : small' → small) : EndsIf small' x :=
  h.imp_right fun ⟨hnot, he⟩ => ⟨fun h' => hnot (hsmall h'), he⟩

/-- A sequence ends if both of its parts do, under the same condition. -/
theorem bind {f : α → Except Fault β} (hx : EndsIf small x)
    (hf : ∀ a, x = .ok a → EndsIf small (f a)) : EndsIf small (x >>= f) := by
  obtain ⟨a, ha⟩ | ⟨hnot, he⟩ := hx
  · rw [ha]
    exact hf a ha
  · rw [he]
    exact .inr ⟨hnot, rfl⟩

/-- A fold ends if each of its steps does, in whatever state. Induction on the list. -/
theorem foldlM {f : β → α → Except Fault β} {as : List α} {b : β}
    (hf : ∀ b, ∀ a ∈ as, EndsIf small (f b a)) : EndsIf small (as.foldlM f b) := by
  induction as generalizing b with
  | nil => exact ok ⟨b, rfl⟩
  | cons a as ih =>
    obtain ⟨hfirst, hrest⟩ := forall_and.1 fun b => List.forall_mem_cons.1 (hf b)
    rw [List.foldlM_cons]
    exact (hfirst b).bind fun next _ => ih hrest

end Fault.EndsIf

namespace Selection

open Fault (EndsIf)

variable {t : Target} {mode : Mode} {env : Env} {banks : RegMap Bank} {i : Instr} {k : Nat}

/-! ## Copies that have a cost

A target may refuse to price a copy, and then selection stops there. Where it prices every copy,
settling always comes to its end, and a mapping has a price unless a sum overflows. -/

section Copies

variable (hcopy : ∀ a b w, ∃ cost, t.copyCost a b w = .ok cost)
include hcopy

/-- Demands can be met if every copy has a cost. Nothing is summed up in settling, so nothing can
overflow. -/
theorem settle_answers (ds : List Demand) : ∃ out, (settle t k banks ds).result = .ok out := by
  induction ds generalizing banks with
  | nil => exact ⟨([], banks), rfl⟩
  | cons d ds ih =>
    cases hd : banks[d.reg]? with
    | none =>
      -- the rest is settled from the table with the bank filled in
      obtain ⟨⟨rs, banks'⟩, h⟩ := @ih (banks.insert d.reg d.value.bank)
      exact ⟨(rs, banks'), settle_cons_eq_ok.2 (.inl ⟨hd, h⟩)⟩
    | some b =>
      obtain ⟨⟨rs, banks'⟩, h⟩ := @ih banks
      by_cases hb : b = d.value.bank
      · exact ⟨(rs, banks'), settle_cons_eq_ok.2 (.inr (.inl ⟨hb ▸ hd, h⟩))⟩
      · obtain ⟨cost, hcost⟩ := hcopy b d.value.bank d.value.width
        exact ⟨_, settle_cons_eq_ok.2 (.inr (.inr ⟨b, cost, rs, hd, hb, hcost, h, rfl⟩))⟩

/-- The copies that some demands would need have costs, as the banks stand. -/
theorem exists_copyCosts (ds : List Demand) : ∃ costs, CopyCosts t banks ds costs := by
  induction ds with
  | nil => exact ⟨[], .nil⟩
  | cons d ds ih =>
    obtain ⟨costs, hcosts⟩ := ih
    cases hd : banks[d.reg]? with
    | none => exact ⟨costs, .free hd hcosts⟩
    | some b =>
      obtain ⟨cost, hcost⟩ := hcopy b d.value.bank d.value.width
      exact ⟨cost :: costs, .copy hd hcost hcosts⟩

/-- If a mapping has no price, then because it is too high. Every copy has a cost here, so adding up
is all that can go wrong. -/
theorem price_eq_error {m : InstrMapping} {e : Fault} (h : price t banks i m = .error e) :
    e = .addOverflow := by
  -- in the sum of the copies, or when the cost of the mapping is added to it
  obtain hrepairs | ⟨repairs, _, h⟩ := Fault.bind_eq_error.1 h
  · obtain ⟨paid, d, _, hpay⟩ := Fault.exists_error_of_foldlM hrepairs
    change payFor t banks paid d = .error e at hpay
    unfold payFor at hpay
    split at hpay
    · next b _ =>
      obtain ⟨cost, hcost⟩ := hcopy b d.value.bank d.value.width
      obtain hfail | ⟨_, _, hadd⟩ := Fault.bind_eq_error.1 hpay
      · cases hcost.symm.trans hfail
      · exact Cost.add_eq_error hadd
    · cases hpay
  · obtain hadd | ⟨_, _, h⟩ := Fault.bind_eq_error.1 h
    · exact Cost.add_eq_error hadd
    · cases h

end Copies

/-! ## One instruction

No mapping of this target costs more than three, and each register operand adds one copy at the
most. So a price is below the number of register operands and three, which only an instruction with
some four thousand million of them can bring to an overflow. -/

/-- Every register operand adds one copy at the most, so a mapping whose cost leaves room for as
many copies has a price. -/
theorem price_endsIf (m : InstrMapping) :
    EndsIf (m.cost + i.regOperands.length < Cost.bound) (price gpu banks i m) := by
  cases hprice : price gpu banks i m with
  | ok p => exact .ok ⟨p, rfl⟩
  | error e =>
    have he : e = .addOverflow := price_eq_error Gpu.copyCost_answers hprice
    refine .inr ⟨fun hsmall => ?_, congrArg Except.error he⟩
    obtain ⟨costs, hcosts⟩ : ∃ costs, CopyCosts gpu banks (m.demands i) costs :=
      exists_copyCosts Gpu.copyCost_answers _
    -- a copy costs one on this target, and there is one demand for each register operand at the
    -- most
    have hcount : Cost.amount costs ≤ i.regOperands.length := by
      rw [hcosts.amount_eq Gpu.copyCost_gpu]
      exact List.countP_le_length.trans (List.length_filterMap_le _ _)
    have hbound : m.cost + Cost.amount costs < Cost.bound := by omega
    have hok : price gpu banks i m = .ok ⟨m, m.cost + Cost.amount costs⟩ :=
      price_eq_ok_iff.2 ⟨rfl, costs, hcosts, rfl, hbound⟩
    cases hok.symm.trans hprice

/-- An instruction with fewer register operands than this has a price for every mapping. -/
def Few (i : Instr) : Prop :=
  i.regOperands.length < 2 ^ 32 - 4

/-- With few register operands, every mapping that costs three at the most has a price. -/
theorem price_endsIf_few {m : InstrMapping} (hcost : m.cost ≤ 3) :
    EndsIf (Few i) (price gpu banks i m) := by
  refine (price_endsIf m).mono fun hfew => ?_
  unfold Few at hfew
  simp only [Cost.bound, UInt32.size]
  omega

theorem cost_le_of_mapping {m : InstrMapping} (h : (gpu.mapping env i).result = .ok m) :
    m.cost ≤ 3 := by
  rw [(Gpu.mapping_inOneBank h).1]
  decide

/-- The alternatives cost three at the most: `loadChoices` has no dearer one. -/
theorem cost_le_of_alternatives {m : InstrMapping} {ms : List InstrMapping}
    (h : (gpu.alternatives env i).result = .ok ms) (hm : m ∈ ms) : m.cost ≤ 3 := by
  obtain rfl | ⟨_, w, rfl⟩ := Gpu.alternatives_eq_ok h
  · cases hm
  · obtain ⟨⟨cost, valueBank, addressBank⟩, hchoice, rfl⟩ := List.mem_map.1 hm
    have hcosts : ∀ choice ∈ Gpu.loadChoices, choice.1 ≤ 3 := by decide
    exact hcosts _ hchoice

/-- An instruction that is measured gets its choice, unless a cost overflows. The candidates are
there since the rules answer, and each has its price where the registers are few. -/
theorem choose_endsIf (h : Gpu.Measured env i) :
    EndsIf (Few i) (choose gpu mode env banks i).result := by
  -- the mappings that the mode weighs against the target's own
  obtain ⟨ms, hms, hcosts⟩ : ∃ ms, (others gpu mode env i).result = .ok ms ∧
      ∀ m ∈ ms, m.cost ≤ 3 := by
    cases mode with
    | fast => exact ⟨[], rfl, nofun⟩
    | greedy =>
      obtain ⟨ms, hms⟩ := h.answers.alternatives
      exact ⟨ms, hms, fun m hm => cost_le_of_alternatives hms hm⟩
  obtain ⟨m, hm⟩ := h.answers.mapping
  rw [choose_eq, Traced.result_bind, hms]
  change EndsIf _ (chooseAmong gpu env banks i ms).result
  unfold chooseAmong
  rw [Traced.result_bind, hm]
  simp only [Traced.result_bind]
  refine (price_endsIf_few (cost_le_of_mapping hm)).bind fun first _ => ?_
  have hcheapest : EndsIf (Few i) (cheapest gpu banks i first ms) := by
    refine .foldlM fun best m hm => ?_
    exact (price_endsIf_few (hcosts m hm)).bind fun next _ => .ok ⟨_, rfl⟩
  exact hcheapest.bind fun best _ => .ok ⟨best, rfl⟩

/-! ## The stream

Every step is answered or ends with the overflow of a cost, and it is answered if the registers are
few. Both halves are carried along the stream as one condition. -/

/-- Selection goes over a stream of measured instructions to its end, unless a cost overflows.
Induction on the stream; the banks differ from one instruction to the next, but being measured does
not depend on them. -/
theorem walk_endsIf {is : List Instr} (h : ∀ i ∈ is, Gpu.Measured env i) :
    EndsIf (∀ i ∈ is, Few i) (walk gpu mode env k banks is).result := by
  induction is generalizing k banks with
  | nil => exact .ok ⟨_, rfl⟩
  | cons i is ih =>
    obtain ⟨hi, his⟩ := List.forall_mem_cons.1 h
    simp only [walk, Traced.result_bind]
    -- choosing may overflow; settling and the rest of the stream are then not reached
    refine ((choose_endsIf hi).mono fun hfew => hfew i List.mem_cons_self).bind fun chosen _ => ?_
    refine (EndsIf.ok (settle_answers Gpu.copyCost_answers _)).bind ?_
    rintro ⟨rs, mid⟩ _
    have hlater : EndsIf (∀ j ∈ i :: is, Few j) (walk gpu mode env (k + 1) mid is).result :=
      (ih his).mono fun hfew j hj => hfew j (List.mem_cons_of_mem i hj)
    exact hlater.bind fun later _ => .ok ⟨_, rfl⟩

/-- Selection comes to the end of a stream of measured instructions, unless a cost overflows. -/
theorem run_endsIf {is : List Instr} (h : ∀ i ∈ is, Gpu.Measured env i) :
    EndsIf (∀ i ∈ is, Few i) (run gpu mode env is).result := by
  unfold run
  rw [Traced.result_bind, seed_result]
  exact walk_endsIf h

end Selection

/-! ## Accepted texts

What is left to show for an accepted text is that its instructions are measured. Reading has looked
at their shape, and the widths come from the types. -/

open Selection

/-- Reading has checked all that the rule of the opcode looks at, but for the widths. So a
well-formed instruction is measured in any environment that knows the widths of its registers. -/
theorem Instr.WellFormed.measured {env : Env} {i : Instr} (hform : i.WellFormed)
    (hwidths : env.KnowsWidths i) : Gpu.Measured env i := by
  -- a register in a slot is a register of the instruction, so its width is known
  have hat {k : Nat} (hreg : i.RegAt k) : env.WidthAt i k := by
    obtain ⟨r, hr⟩ := hreg
    obtain ⟨w, hw⟩ := hwidths r (Instr.mem_regs.2 (List.mem_of_getElem? hr))
    exact ⟨r, w, hr, hw⟩
  have hmappable := hform.mappable
  unfold Instr.Mappable at hmappable
  unfold Gpu.Measured
  cases hop : i.opcode with
  | constant =>
    simp only [hop] at hmappable
    exact hat (Reader.regAt_zero hform hmappable)
  | load =>
    simp only [hop] at hmappable
    exact ⟨hat (Reader.regAt_zero hform hmappable.1), hat hmappable.2⟩
  | store =>
    simp only [hop] at hmappable
    exact ⟨hat hmappable.2.1, (hat hmappable.2.2).lt⟩
  | _ => exact hwidths

namespace Routine

/-- A routine knows the width of every register that has a type, under any answers about
uniformity. -/
theorem knowsWidths {f : Routine} {i : Instr} (h : ∀ r ∈ i.regs, (f.typeOf r).isSome)
    (uniform : Instr → Bool) : Env.KnowsWidths { f.env with uniform } i := by
  intro r hr
  obtain ⟨ty, hty⟩ := Option.isSome_iff_exists.1 (h r hr)
  exact ⟨ty.width, by simp [env, hty]⟩

/-- Whatever an accepted text describes can be mapped if all its registers have types, and whichever
accesses are taken to be uniform: every query is answered for every instruction, it can be told of
every mapping whether it fits, and selection comes to its end in both modes, with one choice for each
instruction. Only the overflow of a cost can prevent the last, and no cost overflows while
instructions have fewer register operands than there are costs. -/
theorem parse_selects {text : String} {f : Routine} (h : parse text = .ok f)
    (htypes : ∀ i ∈ f.instrs, ∀ r ∈ i.regs, (f.typeOf r).isSome) (uniform : Instr → Bool) :
    let env := { f.env with uniform }
    (∀ i ∈ f.instrs, Gpu.Answers env i ∧ ∀ m : InstrMapping, ∃ fits, m.verify env i = .ok fits) ∧
      ∀ mode,
        (∃ s, (run gpu mode env f.instrs).result = .ok s ∧
          s.choices.map Choice.instr = List.range f.instrs.length) ∨
        (¬ ∀ i ∈ f.instrs, i.regOperands.length < 2 ^ 32 - 4) ∧
          (run gpu mode env f.instrs).result = .error .addOverflow := by
  intro env
  have hwidths : ∀ i ∈ f.instrs, env.KnowsWidths i := fun i hi => knowsWidths (htypes i hi) uniform
  have hmeasured : ∀ i ∈ f.instrs, Gpu.Measured env i :=
    fun i hi => ((wellFormed_of_parse h).instrs i hi).measured (hwidths i hi)
  refine ⟨fun i hi => ⟨(hmeasured i hi).answers, InstrMapping.verify_answers (hwidths i hi)⟩, ?_⟩
  intro mode
  refine (run_endsIf hmeasured).imp_left ?_
  rintro ⟨s, hs⟩
  exact ⟨s, hs, (run_choices hs).1⟩

/-- A load and a store, with the accesses of both taken to be divergent: the greedy mode goes through
all alternatives of the load and comes to its end. -/
theorem parse_selects_load :
    ∃ f s, parse "%0:s32 = G_LOAD %1:p64 :: uniform\nG_STORE %0, %1 :: uniform\n" = .ok f ∧
      (∀ i ∈ f.instrs, ∀ r ∈ i.regs, (f.typeOf r).isSome) ∧
      (∀ i ∈ f.instrs, Gpu.Answers { f.env with uniform := fun _ => false } i) ∧
      (run gpu .greedy { f.env with uniform := fun _ => false } f.instrs).result = .ok s ∧
      s.choices.map Choice.instr = [0, 1] := by
  let load : Instr := ⟨.load, [.reg ⟨0⟩, .reg ⟨1⟩], 1, [.uniform], by decide⟩
  let store : Instr := ⟨.store, [.reg ⟨0⟩, .reg ⟨1⟩], 0, [.uniform], by decide⟩
  let f : Routine :=
    ⟨[load, store], ((∅ : TypeTable).insert ⟨0⟩ (.scalar 32)).insert ⟨1⟩ (.pointer 64)⟩
  have hparse : parse "%0:s32 = G_LOAD %1:p64 :: uniform\nG_STORE %0, %1 :: uniform\n" = .ok f := by
    decide +kernel
  have htypes : ∀ i ∈ f.instrs, ∀ r ∈ i.regs, (f.typeOf r).isSome := by decide +kernel
  have hfew : ∀ i ∈ f.instrs, i.regOperands.length < 2 ^ 32 - 4 := by decide
  obtain ⟨hanswers, hruns⟩ := parse_selects hparse htypes fun _ => false
  obtain ⟨s, hs, hchoices⟩ | ⟨hmany, _⟩ := hruns .greedy
  · exact ⟨f, s, hparse, htypes, fun i hi => (hanswers i hi).1, hs, hchoices⟩
  · exact absurd hfew hmany

end Routine

end Lowering
