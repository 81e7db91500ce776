import Lowering.Proofs.Agreement
import Lowering.Proofs.Queries

/-!
# Lowering — banks do not depend on widths

The widths of registers go into every mapping and every copy, but no decision looks at them: a copy
costs the same for any width. So two environments that differ in the widths of registers alone lead
to selections that differ in widths alone (`Selection.run_widthless`).

What a result is apart from its widths is the result with all of them set to zero, and two
computations come to the same in this sense if their results do so or their faults are equal. A
sequence keeps this as soon as its parts do (`Fault.map_bind_congr`), so the two runs are followed
step by step: the mappings of the target (`Gpu.mapping_widthless`, `Gpu.alternatives_widthless`), the
choice between them (`Selection.choose_widthless`), and what it settles (`Selection.settle_widthless`).
-/

namespace Lowering

/-! ## Results without their widths

Each record of a result with its widths set to zero. All other fields stay, so two results that
agree in this form agree in everything but widths. -/

/-- A demand for a bank at no width in particular. -/
def ValueMapping.widthless (v : ValueMapping) : ValueMapping :=
  { v with width := 0 }

/-- A map of such demands. An operand without a demand stays without one. -/
def OperandMap.widthless (m : OperandMap) : OperandMap :=
  ⟨m.entries.map (Option.map ValueMapping.widthless)⟩

/-- A mapping with its number and its cost. -/
def InstrMapping.widthless (m : InstrMapping) : InstrMapping :=
  { m with operands := m.operands.widthless }

def Demand.widthless (d : Demand) : Demand :=
  { d with value := d.value.widthless }

def Repair.widthless (c : Repair) : Repair :=
  { c with width := 0 }

def Choice.widthless (c : Choice) : Choice :=
  { c with mapping := c.mapping.widthless }

namespace Selection

def Priced.widthless (p : Priced) : Priced :=
  { p with mapping := p.mapping.widthless }

/-- The selection with all widths set to zero: every number, bank, mapping cost and total stays, and
so does for every operand of every mapping whether anything is demanded of it. -/
def widthless (s : Selection) : Selection :=
  ⟨s.choices.map Choice.widthless, s.repairs.map Repair.widthless, s.banks⟩

end Selection

/-! ## Sequences that come to the same

The comparison is one of results and faults at once. As the second part of a sequence starts from
the result of the first, it is compared on any two results that agree, and not just on the same. -/

namespace Fault

variable {α β γ δ : Type}

/-- Two sequences come to the same if their first parts do, and their second parts do wherever the
first came to the same. -/
theorem map_bind_congr {g : α → γ} {h : β → δ} {x x' : Except Fault α} {f f' : α → Except Fault β}
    (hx : x.map g = x'.map g) (hf : ∀ a a', g a = g a' → (f a).map h = (f' a').map h) :
    (x >>= f).map h = (x' >>= f').map h := by
  -- a fault of the first part is the same on both sides, since there is nothing to map in it
  cases x with
  | ok a =>
    cases x' with
    | ok a' => exact hf a a' (Except.ok.inj hx)
    | error e' => cases hx
  | error e =>
    cases x' with
    | ok a' => cases hx
    | error e' =>
      cases hx
      rfl

/-- Two loops over the same list come to the same if their steps do, from states that agree.
Induction on the list. -/
theorem map_foldlM_congr {g : β → γ} {f f' : β → α → Except Fault β} {as : List α}
    (hf : ∀ a ∈ as, ∀ b b', g b = g b' → (f b a).map g = (f' b' a).map g) {b b' : β}
    (hb : g b = g b') : (as.foldlM f b).map g = (as.foldlM f' b').map g := by
  induction as generalizing b b' with
  | nil => exact congrArg Except.ok hb
  | cons a as ih =>
    obtain ⟨ha, has⟩ := List.forall_mem_cons.1 hf
    rw [List.foldlM_cons, List.foldlM_cons]
    exact map_bind_congr (ha b b' hb) fun c c' hc => ih has hc

/-- Computations for the elements of a list come to the same if they do so for each element.
Induction on the list. -/
theorem map_mapM_congr {g : β → γ} {f f' : α → Except Fault β} {as : List α}
    (hf : ∀ a ∈ as, (f a).map g = (f' a).map g) :
    (as.mapM f).map (List.map g) = (as.mapM f').map (List.map g) := by
  induction as with
  | nil => rfl
  | cons a as ih =>
    obtain ⟨ha, has⟩ := List.forall_mem_cons.1 hf
    rw [List.mapM_cons, List.mapM_cons]
    refine map_bind_congr ha fun b b' hb => map_bind_congr (ih has) fun bs bs' hbs => ?_
    exact congrArg Except.ok (List.cons_eq_cons.2 ⟨hb, hbs⟩)

/-- Computations that come to the same end with a value or with one and the same fault. -/
theorem ok_of_map_eq {g : α → γ} {x x' : Except Fault α} (h : x.map g = x'.map g) {a : α}
    (hx : x = .ok a) : ∃ a', x' = .ok a' ∧ g a = g a' := by
  rw [hx] at h
  cases x' with
  | ok a' => exact ⟨a', rfl, Except.ok.inj h⟩
  | error e => cases h

/-- A fault of one is a fault of the other, and the same one. -/
theorem error_of_map_eq {g : α → γ} {x x' : Except Fault α} (h : x.map g = x'.map g) {e : Fault}
    (hx : x = .error e) : x' = .error e := by
  rw [hx] at h
  cases x' with
  | ok a' => cases h
  | error e' =>
    cases h
    rfl

end Fault

/-! ## Mappings without their widths

Maps are made from the empty one by setting demands, checked for covering the operands, and read off
as demands. None of this looks at a width. -/

namespace OperandMap

variable {m m' : OperandMap} {v v' : ValueMapping}

theorem get?_widthless (m : OperandMap) (k : Nat) :
    m.widthless.get? k = (m.get? k).map ValueMapping.widthless := by
  unfold get? widthless
  rw [List.getElem?_map]
  cases m.entries[k]? with
  | none => rfl
  | some entry => rfl

theorem size_eq (h : m.widthless = m'.widthless) : m.size = m'.size := by
  have hlength := congrArg size h
  unfold size widthless at hlength
  rwa [List.length_map, List.length_map] at hlength

/-- Setting a demand, or failing to, leaves maps that are the same apart from widths as they were. -/
theorem set_congr (h : m.widthless = m'.widthless) (hv : v.widthless = v'.widthless) (k : Nat) :
    (m.set k v).map widthless = (m'.set k v').map widthless := by
  unfold set
  rw [size_eq h]
  split
  · have hentries := congrArg entries h
    simp only [widthless] at hentries
    simp only [Except.map, widthless, List.map_set, Option.map_some, hv, hentries]
  · rfl

end OperandMap

namespace InstrMapping

/-- The check that a map covers the operands looks at its size only. -/
theorem covering_congr {m m' : OperandMap} (h : m.widthless = m'.widthless) (cost hint n : Nat) :
    (covering cost hint m n).map widthless = (covering cost hint m' n).map widthless := by
  unfold covering
  rw [OperandMap.size_eq h]
  split
  · simp only [Except.map, widthless, h]
  · rfl

theorem demands_widthless (m : InstrMapping) (i : Instr) :
    m.widthless.demands i = (m.demands i).map Demand.widthless := by
  unfold demands
  rw [List.map_filterMap]
  refine List.filterMap_congr fun ⟨k, r⟩ _ => ?_
  simp only [widthless, OperandMap.get?_widthless, Option.map_map]
  rfl

end InstrMapping

/-! ## Environments that differ in widths

The target asks for widths and for the uniformity of an access. It fails where a width is missing,
which is why the widths have to be known on both sides, but what it does with a width it knows does
not depend on its value. One lemma for each rule. -/

/-- Both environments know the widths of the registers of the instruction, and they take its access
alike. The widths need not be the same. -/
structure Env.AlikeAt (env env' : Env) (i : Instr) : Prop where
  uniform : env.uniform i = env'.uniform i
  knows : env.KnowsWidths i
  knows' : env'.KnowsWidths i

namespace Gpu

variable {env env' : Env} {i : Instr}

/-- A width that is asked for is there in both environments, or the operand is at fault in both. -/
theorem operandWidth_alike (h : env.AlikeAt env' i) (k : Nat) :
    (operandWidth env i k).map (fun _ => ()) = (operandWidth env' i k).map (fun _ => ()) := by
  unfold operandWidth Instr.operandAt
  cases hop : i.operands[k]? with
  | none => rfl
  | some op =>
    cases op with
    | reg r =>
      -- the widths may differ, but each environment knows one
      have hr : r ∈ i.regs := Instr.mem_regs.2 (List.mem_of_getElem? hop)
      obtain ⟨w, hw⟩ := h.knows r hr
      obtain ⟨w', hw'⟩ := h.knows' r hr
      have hres : env.resolveWidth r = .ok w := Env.resolveWidth_eq_ok_iff.2 hw
      have hres' : env'.resolveWidth r = .ok w' := Env.resolveWidth_eq_ok_iff.2 hw'
      change (env.resolveWidth r).map _ = (env'.resolveWidth r).map _
      rw [hres, hres']
      rfl
    | imm v => rfl
    | symbol name => rfl

theorem scalarDef_widthless (h : env.AlikeAt env' i) :
    (scalarDef env i).map InstrMapping.widthless =
      (scalarDef env' i).map InstrMapping.widthless := by
  refine Fault.map_bind_congr (operandWidth_alike h 0) fun w w' _ => ?_
  refine Fault.map_bind_congr (OperandMap.set_congr rfl ?_ 0) fun ops ops' hops =>
    InstrMapping.covering_congr hops _ _ _
  rfl

/-- Two demands that agree are set in the first two slots, or the slots are missing for both. -/
theorem valueAndAddress_widthless {x y x' y' : ValueMapping} (hx : x.widthless = x'.widthless)
    (hy : y.widthless = y'.widthless) (cost : Nat) (i : Instr) :
    (valueAndAddress cost i x y).map InstrMapping.widthless =
      (valueAndAddress cost i x' y').map InstrMapping.widthless := by
  refine Fault.map_bind_congr (OperandMap.set_congr rfl hx 0) fun first first' hfirst => ?_
  exact Fault.map_bind_congr (OperandMap.set_congr hfirst hy 1) fun ops ops' hops =>
    InstrMapping.covering_congr hops _ _ _

theorem store_widthless (h : env.AlikeAt env' i) :
    (store env i).map InstrMapping.widthless = (store env' i).map InstrMapping.widthless := by
  refine Fault.map_bind_congr (operandWidth_alike h 0) fun w w' _ => ?_
  have hvalue : (ValueMapping.vector w).widthless = (ValueMapping.vector w').widthless := rfl
  have hpair := valueAndAddress_widthless hvalue (rfl : (ValueMapping.vector pointerWidth).widthless = _)
    InstrMapping.defaultCost i
  exact hpair

/-- The rule for loads, which takes its bank from the uniformity of the access. -/
theorem load_widthless (h : env.AlikeAt env' i) :
    (load env i).result.map InstrMapping.widthless =
      (load env' i).result.map InstrMapping.widthless := by
  unfold load
  simp only [Traced.result_bind, h.uniform]
  refine Fault.map_bind_congr (operandWidth_alike h 0) fun w w' _ => ?_
  refine Fault.map_bind_congr (operandWidth_alike h 1) fun a a' _ => ?_
  refine Fault.map_bind_congr (g := id) rfl fun _ _ _ => ?_
  refine valueAndAddress_widthless ?_ ?_ InstrMapping.defaultCost i
  · rfl
  · rfl

/-- The rule that keeps every register in the scalar bank. -/
theorem scalarRegs_widthless (h : env.AlikeAt env' i) :
    (scalarRegs env i).map InstrMapping.widthless =
      (scalarRegs env' i).map InstrMapping.widthless := by
  -- one more register is set in both maps
  have hset : ∀ slot ∈ i.regOperands, ∀ m m' : OperandMap, m.widthless = m'.widthless →
      (setScalar env m slot).map OperandMap.widthless =
        (setScalar env' m' slot).map OperandMap.widthless := by
    intro slot hslot m m' hm
    obtain ⟨w, hw⟩ := h.knows.resolveWidth hslot
    obtain ⟨w', hw'⟩ := h.knows'.resolveWidth hslot
    have hv : (ValueMapping.scalar w).widthless = (ValueMapping.scalar w').widthless := rfl
    unfold setScalar
    rw [hw, hw']
    exact OperandMap.set_congr hm hv slot.1
  exact Fault.map_bind_congr (Fault.map_foldlM_congr hset rfl) fun ops ops' hops =>
    InstrMapping.covering_congr hops _ _ _

/-- The widths that run along the operands differ and the banks do not. Induction on the operands,
from any two widths that run on. -/
theorem runningWidths_widthless {ops : List Operand}
    (h : ∀ op ∈ ops, ∀ r, op.reg? = some r → ∃ w, env.width r = some w)
    (h' : ∀ op ∈ ops, ∀ r, op.reg? = some r → ∃ w, env'.width r = some w) (w w' : UInt32) :
    (runningWidths env w ops).map (List.map (Option.map ValueMapping.widthless)) =
      (runningWidths env' w' ops).map (List.map (Option.map ValueMapping.widthless)) := by
  induction ops generalizing w w' with
  | nil => rfl
  | cons op ops ih =>
    obtain ⟨hop, hops⟩ := List.forall_mem_cons.1 h
    obtain ⟨hop', hops'⟩ := List.forall_mem_cons.1 h'
    rw [runningWidths, runningWidths]
    -- whichever widths run on behind the operand, the rows behind it come to the same
    have hrow (v v' : UInt32) :
        (runningWidths env v ops >>= fun row => .ok (some (.scalar v) :: row)).map
            (List.map (Option.map ValueMapping.widthless)) =
          (runningWidths env' v' ops >>= fun row => .ok (some (.scalar v') :: row)).map
            (List.map (Option.map ValueMapping.widthless)) := by
      refine Fault.map_bind_congr (ih hops hops' v v') fun row row' hrow => ?_
      exact congrArg Except.ok (List.cons_eq_cons.2 ⟨rfl, hrow⟩)
    cases hreg : op.reg? with
    | none => exact hrow w w'
    | some r =>
      obtain ⟨v, hv⟩ := hop r hreg
      obtain ⟨v', hv'⟩ := hop' r hreg
      simp only [Env.resolveWidth_eq_ok_iff.2 hv, Env.resolveWidth_eq_ok_iff.2 hv']
      exact hrow v v'

theorem fallback_widthless (h : env.AlikeAt env' i) :
    (fallback env i).map InstrMapping.widthless = (fallback env' i).map InstrMapping.widthless := by
  have hregs : ∀ op ∈ i.operands, ∀ r, op.reg? = some r → r ∈ i.regs :=
    fun op hop r hr => List.mem_filterMap.2 ⟨op, hop, hr⟩
  have hrows := runningWidths_widthless (fun op hop r hr => h.knows r (hregs op hop r hr))
    (fun op hop r hr => h.knows' r (hregs op hop r hr)) 0 0
  exact Fault.map_bind_congr hrows fun row row' hrow =>
    InstrMapping.covering_congr (congrArg OperandMap.mk hrow) _ _ _

/-- The target's own mapping is the same apart from widths. -/
theorem mapping_widthless (h : env.AlikeAt env' i) :
    (gpu.mapping env i).result.map InstrMapping.widthless =
      (gpu.mapping env' i).result.map InstrMapping.widthless := by
  change (mapping env i).result.map _ = (mapping env' i).result.map _
  unfold mapping
  cases i.opcode.rule? with
  | none =>
    simp only [Traced.result_bind]
    exact Fault.map_bind_congr (g := id) rfl fun _ _ _ => fallback_widthless h
  | some rule =>
    cases rule with
    | scalarDef => exact scalarDef_widthless h
    | scalarRegs => exact scalarRegs_widthless h
    | store => exact store_widthless h
    | load => exact load_widthless h

/-- The alternatives are the same apart from widths, one by one and in the same order. -/
theorem alternatives_widthless (h : env.AlikeAt env' i) :
    (gpu.alternatives env i).result.map (List.map InstrMapping.widthless) =
      (gpu.alternatives env' i).result.map (List.map InstrMapping.widthless) := by
  change (alternatives env i).map _ = (alternatives env' i).map _
  unfold alternatives
  split
  · refine Fault.map_bind_congr (operandWidth_alike h 0) fun w w' _ => ?_
    refine Fault.map_mapM_congr fun choice _ => ?_
    refine valueAndAddress_widthless ?_ ?_ choice.1 i
    · rfl
    · rfl
  · rfl

end Gpu

/-! ## Prices and copies

A copy between two banks costs the same at any width. So prices are equal and not just alike, and
with them the comparison of prices and the choice. -/

namespace Selection

variable {mode : Mode} {env env' : Env} {banks : RegMap Bank} {i : Instr} {k : Nat}

theorem repairCost_widthless (banks : RegMap Bank) (ds : List Demand) :
    repairCost gpu banks (ds.map Demand.widthless) = repairCost gpu banks ds := by
  unfold repairCost
  rw [List.foldlM_map]
  rfl

/-- A mapping costs the same at any widths. -/
theorem price_widthless (banks : RegMap Bank) (i : Instr) (m : InstrMapping) :
    price gpu banks i m.widthless = (price gpu banks i m).map Priced.widthless := by
  unfold price
  rw [InstrMapping.demands_widthless, repairCost_widthless]
  cases repairCost gpu banks (m.demands i) with
  | error e => rfl
  | ok repairs =>
    change (Cost.add m.cost repairs >>= _) = (Cost.add m.cost repairs >>= _).map _
    cases Cost.add m.cost repairs with
    | error e => rfl
    | ok total => rfl

theorem price_congr {m m' : InstrMapping} (h : m.widthless = m'.widthless) :
    (price gpu banks i m).map Priced.widthless = (price gpu banks i m').map Priced.widthless := by
  rw [← price_widthless, ← price_widthless, h]

/-- One more candidate is better on both sides or on neither. -/
theorem cheaper_congr {best best' : Priced} {m m' : InstrMapping}
    (hbest : best.widthless = best'.widthless) (hm : m.widthless = m'.widthless) :
    (cheaper gpu banks i best m).map Priced.widthless =
      (cheaper gpu banks i best' m').map Priced.widthless := by
  refine Fault.map_bind_congr (price_congr hm) fun next next' hnext => ?_
  -- the comparison looks at the totals alone
  have htotal : best.total = best'.total := (congrArg Priced.total hbest :)
  have hnextTotal : next.total = next'.total := (congrArg Priced.total hnext :)
  rw [htotal, hnextTotal]
  split
  · exact congrArg Except.ok hnext
  · exact congrArg Except.ok hbest

/-- The best of some candidates is the same apart from widths. Induction on the candidates. -/
theorem cheapest_congr {first first' : Priced} {ms ms' : List InstrMapping}
    (hfirst : first.widthless = first'.widthless)
    (hms : ms.map InstrMapping.widthless = ms'.map InstrMapping.widthless) :
    (cheapest gpu banks i first ms).map Priced.widthless =
      (cheapest gpu banks i first' ms').map Priced.widthless := by
  unfold cheapest
  induction ms generalizing first first' ms' with
  | nil =>
    rw [List.map_eq_nil_iff.1 hms.symm]
    exact congrArg Except.ok hfirst
  | cons m ms ih =>
    obtain ⟨m', later, rfl, hm, hlater⟩ := List.map_eq_cons_iff.1 hms.symm
    rw [List.foldlM_cons, List.foldlM_cons]
    -- prices do not depend on widths, so the same candidate is the better one on both sides
    exact Fault.map_bind_congr (cheaper_congr hfirst hm.symm) fun best best' hbest =>
      ih hbest hlater.symm

/-- The same mapping is chosen at the same price, apart from widths. No cost depends on a width, so
the comparison of candidates comes out the same, ties included. -/
theorem choose_widthless (h : env.AlikeAt env' i) :
    (choose gpu mode env banks i).result.map Priced.widthless =
      (choose gpu mode env' banks i).result.map Priced.widthless := by
  -- the alternatives first, then the default and its price, then the comparison
  have hothers : (others gpu mode env i).result.map (List.map InstrMapping.widthless) =
      (others gpu mode env' i).result.map (List.map InstrMapping.widthless) := by
    cases mode with
    | fast => rfl
    | greedy => exact Gpu.alternatives_widthless h
  rw [choose_eq, choose_eq, Traced.result_bind, Traced.result_bind]
  refine Fault.map_bind_congr hothers fun ms ms' hms => ?_
  unfold chooseAmong
  simp only [Traced.result_bind]
  refine Fault.map_bind_congr (Gpu.mapping_widthless h) fun m m' hm => ?_
  refine Fault.map_bind_congr (price_congr hm) fun first first' hfirst => ?_
  exact Fault.map_bind_congr (cheapest_congr hfirst hms) fun best best' hbest =>
    congrArg Except.ok hbest

/-- Some demands settle the same registers, and lead to the same copies apart from widths. Induction
on the demands: where a register lives, and whether this is where it is demanded, is not a matter of
widths. -/
theorem settle_widthless (k : Nat) (banks : RegMap Bank) (ds : List Demand) :
    (settle gpu k banks (ds.map Demand.widthless)).result =
      (settle gpu k banks ds).result.map (Prod.map (List.map Repair.widthless) id) := by
  induction ds generalizing banks with
  | nil => rfl
  | cons d ds ih =>
    -- which case it is depends on the register and on the bank, neither of which is changed
    have hreg : d.widthless.reg = d.reg := rfl
    rw [List.map_cons, settle, settle, hreg]
    cases banks[d.reg]? with
    | none => exact ih (banks.insert d.reg d.value.bank)
    | some b =>
      by_cases hb : b = d.value.bank
      · simp only [Demand.widthless, ValueMapping.widthless, hb, if_true]
        exact ih banks
      · simp only [Demand.widthless, ValueMapping.widthless, hb, if_false]
        simp only [Traced.result_bind]
        change ((settle gpu k banks (ds.map Demand.widthless)).result >>= _) =
          ((settle gpu k banks ds).result >>= _).map _
        rw [ih banks]
        cases (settle gpu k banks ds).result with
        | error e => rfl
        | ok out => rfl

/-! ## The stream

The two runs go over the stream side by side. At every instruction they choose alike, settle the
same registers and come to the same banks, from which both go on. -/

/-- Going over a stream comes to the same apart from widths. Induction on the stream, from any
banks. -/
theorem walk_widthless {is : List Instr} (h : ∀ i ∈ is, env.AlikeAt env' i) :
    (walk gpu mode env k banks is).result.map widthless =
      (walk gpu mode env' k banks is).result.map widthless := by
  induction is generalizing k banks with
  | nil => rfl
  | cons i is ih =>
    obtain ⟨hi, his⟩ := List.forall_mem_cons.1 h
    simp only [walk, Traced.result_bind]
    refine Fault.map_bind_congr (choose_widthless hi) fun chosen chosen' hchosen => ?_
    have hmapping : chosen.mapping.widthless = chosen'.mapping.widthless :=
      (congrArg Priced.mapping hchosen :)
    have htotal : chosen.total = chosen'.total := (congrArg Priced.total hchosen :)
    have hsettle :
        (settle gpu k banks (chosen.mapping.demands i)).result.map
            (Prod.map (List.map Repair.widthless) id) =
          (settle gpu k banks (chosen'.mapping.demands i)).result.map
            (Prod.map (List.map Repair.widthless) id) := by
      rw [← settle_widthless, ← settle_widthless, ← InstrMapping.demands_widthless,
        ← InstrMapping.demands_widthless, hmapping]
    refine Fault.map_bind_congr hsettle fun out out' hout => ?_
    obtain ⟨rs, mid⟩ := out
    obtain ⟨rs', mid'⟩ := out'
    obtain ⟨hrepairs, hmid⟩ := Prod.mk.inj hout
    -- both runs have come to the same banks
    obtain rfl : mid = mid' := hmid
    refine Fault.map_bind_congr (ih his) fun later later' hlater => congrArg Except.ok ?_
    have hchoices := congrArg Selection.choices hlater
    have hcopies := congrArg Selection.repairs hlater
    have hbanks := congrArg Selection.banks hlater
    simp only [widthless] at hchoices hcopies hbanks
    simp only [widthless, Choice.widthless, List.map_cons, List.map_append, hmapping, htotal,
      hrepairs, hchoices, hcopies, hbanks]

/-- Constraints look at classes only, so both runs start with the same banks. -/
theorem seed_eq_of_classOf {t : Target} {is : List Instr}
    (h : ∀ r ∈ is.flatMap Instr.regs, env.classOf r = env'.classOf r) :
    (seed t env is).result = (seed t env' is).result := by
  rw [seed_result, seed_result]
  refine congrArg Except.ok (List.foldl_ext _ _ _ fun banks r hr => ?_)
  unfold constrain
  rw [h r hr]

/-- In two environments that constrain the registers of a stream to the same classes, take its
accesses alike and know the widths of its registers, whatever these are, selection comes to its end
in both or in neither, with the same fault then. At the end the banks are the same, and so are the
choices and the copies apart from the widths in them. -/
theorem run_widthless {is : List Instr} (huniform : ∀ i ∈ is, env.uniform i = env'.uniform i)
    (hclass : ∀ r ∈ is.flatMap Instr.regs, env.classOf r = env'.classOf r)
    (hwidths : ∀ i ∈ is, env.KnowsWidths i) (hwidths' : ∀ i ∈ is, env'.KnowsWidths i) :
    ((∃ s, (run gpu mode env is).result = .ok s) ↔
        ∃ s', (run gpu mode env' is).result = .ok s') ∧
      (∀ s s', (run gpu mode env is).result = .ok s → (run gpu mode env' is).result = .ok s' →
        s.widthless = s'.widthless) ∧
      ∀ e, (run gpu mode env is).result = .error e ↔ (run gpu mode env' is).result = .error e := by
  have halike : ∀ i ∈ is, env.AlikeAt env' i :=
    fun i hi => ⟨huniform i hi, hwidths i hi, hwidths' i hi⟩
  -- one equation of results, from which completion, answers and faults are all read off
  have hrun : (run gpu mode env is).result.map widthless =
      (run gpu mode env' is).result.map widthless := by
    unfold run
    rw [Traced.result_bind, Traced.result_bind, seed_eq_of_classOf hclass, seed_result]
    exact walk_widthless halike
  refine ⟨⟨?_, ?_⟩, ?_, fun e => ⟨Fault.error_of_map_eq hrun, Fault.error_of_map_eq hrun.symm⟩⟩
  · rintro ⟨s, hs⟩
    obtain ⟨s', hs', _⟩ := Fault.ok_of_map_eq hrun hs
    exact ⟨s', hs'⟩
  · rintro ⟨s', hs'⟩
    obtain ⟨s, hs, _⟩ := Fault.ok_of_map_eq hrun.symm hs'
    exact ⟨s, hs⟩
  · intro s s' hs hs'
    obtain ⟨s'', hs'', heq⟩ := Fault.ok_of_map_eq hrun hs
    cases hs'.symm.trans hs''
    exact heq

/-- A constant of 32 and of 96 bits is stored by the same copy but for its width. -/
theorem run_widthless_store :
    let env (w : UInt32) : Env := ⟨fun _ => some w, fun _ => none, fun _ => true⟩
    let instrs : List Instr := [⟨.constant, [.reg ⟨0⟩, .imm 5], 1, [], by decide⟩,
      ⟨.store, [.reg ⟨0⟩, .reg ⟨1⟩], 0, [], by decide⟩]
    ∃ s s', (run gpu .greedy (env 32) instrs).result = .ok s ∧
      (run gpu .greedy (env 96) instrs).result = .ok s' ∧ s.widthless = s'.widthless ∧
      s.repairs = [⟨1, 0, ⟨0⟩, .scalar, .vector, 32, 1⟩] ∧
      s'.repairs = [⟨1, 0, ⟨0⟩, .scalar, .vector, 96, 1⟩] := by
  intro env instrs
  have hs : (run gpu .greedy (env 32) instrs).result = .ok _ := rfl
  have hs' : (run gpu .greedy (env 96) instrs).result = .ok _ := rfl
  have hwidths (w : UInt32) : ∀ i ∈ instrs, (env w).KnowsWidths i := fun _ _ _ _ => ⟨w, rfl⟩
  have huniform : ∀ i ∈ instrs, (env 32).uniform i = (env 96).uniform i := fun _ _ => rfl
  have hclass : ∀ r ∈ instrs.flatMap Instr.regs, (env 32).classOf r = (env 96).classOf r :=
    fun _ _ => rfl
  obtain ⟨_, hsame, _⟩ := run_widthless huniform hclass (hwidths 32) (hwidths 96)
  exact ⟨_, _, hs, hs', hsame _ _ hs hs', rfl, rfl⟩

end Selection

end Lowering
