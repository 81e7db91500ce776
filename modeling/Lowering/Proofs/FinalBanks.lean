import Lowering.Proofs.SelectionSteps
import Lowering.Target.Gpu

/-!
# Lowering — the banks at the end of selection

Where a register lives once selection is done, said of the constraints and of the chosen mappings
alone (`Selection.run_banks`): in the bank of its class if it is used and constrained to one, else
in the bank that is demanded of it first, and nowhere if nothing is ever demanded of it. On the way
there no bank is changed or removed.
-/

namespace Lowering.Selection

open StateTransition

variable {t : Target} {mode : Mode} {env : Env} {instrs : List Instr} {s : Selection} {r : Reg}

/-- The register is an operand of some instruction and is constrained to the class. -/
def Constrains (env : Env) (instrs : List Instr) (r : Reg) (c : RegClass) : Prop :=
  (∃ i ∈ instrs, .reg r ∈ i.operands) ∧ env.classOf r = some c

/-- The demand `v` on the register is met before any other demand on it. -/
def FirstDemanded (s : Selection) (instrs : List Instr) (r : Reg) (v : ValueMapping) : Prop :=
  ∃ j k, s.Demanded instrs j k r v ∧
    ∀ j' k' v', s.Demanded instrs j' k' r v' → ¬ Before (j', k') (j, k)

/-- The first demand in the list of all demands is the first in the order in which they are met,
since the list is in this order. The bank of the register is the one that it asks for. -/
theorem firstDemanded_of_eq_some {b : Bank}
    (h : firstDemand ((placed 0 instrs s.choices).map Prod.snd) r = some b) :
    ∃ v, s.FirstDemanded instrs r v ∧ v.bank = b := by
  unfold firstDemand at h
  rw [List.find?_map, Option.map_map, Option.map_eq_some_iff] at h
  obtain ⟨⟨j, d⟩, hfind, hb⟩ := h
  obtain ⟨hreg, before, after, hsplit, hbefore⟩ := List.find?_eq_some_iff_append.1 hfind
  have hr : d.reg = r := by simpa using hreg
  have hmem : (j, d) ∈ placed 0 instrs s.choices := by simp [hsplit]
  have hsorted := pairwise_placed 0 instrs s.choices
  rw [hsplit, List.pairwise_append, List.pairwise_cons] at hsorted
  refine ⟨d.value, ⟨j, d.operand, hr ▸ mem_placed_iff.1 hmem, ?_⟩, hb⟩
  intro j' k' v' hdemand hlt
  have hmem' : (j', ⟨k', r, v'⟩) ∈ placed 0 instrs s.choices := mem_placed_iff.2 hdemand
  -- a demand on the register is not among those before the first one, so it is that or comes later
  rw [hsplit] at hmem'
  rcases List.mem_append.1 hmem' with hm | hm
  · exact absurd (hbefore _ hm) (by simp)
  · rcases List.mem_cons.1 hm with heq | hm
    · cases heq
      exact hlt.asymm hlt
    · exact hlt.asymm (hsorted.2.1.1 _ hm)

/-- Where the registers live once selection is done, and that on the way no bank is changed. A
register that some class constrains lives in the bank of the class, another one where it was
demanded first, and one that is never demanded has no bank. The last two parts speak of the machine
that takes selection demand by demand: it comes to these banks, and between any two of its points
the banks are only added to. -/
theorem run_banks (h : (run t mode env instrs).result = .ok s) :
    (∀ r c, Constrains env instrs r c → s.bankOf r = some (t.bankOfClass c)) ∧
      (∀ r, (∀ c, ¬ Constrains env instrs r c) → (∃ j k v, s.Demanded instrs j k r v) →
        ∃ v, s.FirstDemanded instrs r v ∧ s.bankOf r = some v.bank) ∧
      (∀ r, (∀ c, ¬ Constrains env instrs r c) → (∀ j k v, ¬ s.Demanded instrs j k r v) →
        s.bankOf r = none) ∧
      Reaches (step t mode env instrs) (.start instrs) (.done s.banks) ∧
      ∀ x y, Reaches (step t mode env instrs) (.start instrs) x →
        Reaches (step t mode env instrs) x y → Extends x.banks y.banks := by
  obtain ⟨banks, hseed, hwalk⟩ := run_eq_ok.1 h
  obtain ⟨_, hfilled, _⟩ := walk_eq_ok hwalk
  have hused (r : Reg) : r ∈ instrs.flatMap Instr.regs ↔ ∃ i ∈ instrs, .reg r ∈ i.operands := by
    rw [List.mem_flatMap]
    simp only [Instr.mem_regs]
  -- the walk over the stream starts with the constrained registers placed, and with no others
  have hfree : ∀ r, (∀ c, ¬ Constrains env instrs r c) → (banks[r]? : Option Bank) = none := by
    intro r hr
    rw [seed_eq_ok hseed]
    split
    · next hmem =>
      cases hc : env.classOf r with
      | none => rfl
      | some c => exact absurd ⟨(hused r).1 hmem, hc⟩ (hr c)
    · rfl
  -- one case for each of the ways in which a register may have come by its bank
  refine ⟨?_, ?_, ?_, reaches_done_iff.2 ⟨s, h, rfl⟩, fun x y hx hxy => reaches_extends hx hxy⟩
  · intro r c ⟨hr, hc⟩
    have hstart : banks[r]? = some (t.bankOfClass c) := by
      rw [seed_eq_ok hseed, if_pos ((hused r).2 hr), hc]
      rfl
    exact hfilled.extends r _ hstart
  · intro r hr ⟨j, k, v, hdemand⟩
    have hmem : (j, ⟨k, r, v⟩) ∈ placed 0 instrs s.choices := mem_placed_iff.2 hdemand
    have hbank := hfilled r
    rw [hfree r hr, Option.none_or] at hbank
    cases hfirst : firstDemand ((placed 0 instrs s.choices).map Prod.snd) r with
    | none =>
      exact absurd rfl (firstDemand_eq_none.1 hfirst ⟨k, r, v⟩ (List.mem_map.2 ⟨_, hmem, rfl⟩))
    | some b =>
      obtain ⟨v', hv', rfl⟩ := firstDemanded_of_eq_some hfirst
      exact ⟨v', hv', hbank.trans hfirst⟩
  · intro r hr hnone
    have hbank := hfilled r
    rw [hfree r hr, Option.none_or] at hbank
    refine hbank.trans (firstDemand_eq_none.2 ?_)
    intro d hd hreg
    obtain ⟨⟨j, d'⟩, hmem, rfl⟩ := List.mem_map.1 hd
    exact hnone j d'.operand d'.value (hreg ▸ mem_placed_iff.1 hmem)

/-- A store finds a constant where it was defined, and an address where its class is. -/
theorem run_banks_store :
    let env : Env := ⟨fun _ => some 32, fun r => if r = ⟨1⟩ then some .sreg32 else none,
      fun _ => true⟩
    let instrs : List Instr := [⟨.constant, [.reg ⟨0⟩, .imm 5], 1, [], by decide⟩,
      ⟨.store, [.reg ⟨0⟩, .reg ⟨1⟩], 0, [], by decide⟩]
    ∃ s, (run gpu .fast env instrs).result = .ok s ∧ s.bankOf ⟨1⟩ = some .scalar ∧
      (∃ v, s.FirstDemanded instrs ⟨0⟩ v ∧ s.bankOf ⟨0⟩ = some v.bank) ∧ s.bankOf ⟨2⟩ = none := by
  intro env instrs
  refine ⟨_, rfl, ?_⟩
  obtain ⟨hclass, hfirst, hnone, _⟩ :=
    run_banks (show (run gpu .fast env instrs).result = _ from rfl)
  have hunconstrained : ∀ r : Reg, r ≠ ⟨1⟩ → ∀ c, ¬ Constrains env instrs r c := by
    rintro r hr c ⟨_, hc⟩
    simp [env, hr] at hc
  refine ⟨hclass ⟨1⟩ .sreg32 ⟨⟨_, List.mem_cons_of_mem _ List.mem_cons_self, by simp⟩, rfl⟩, ?_, ?_⟩
  · exact hfirst ⟨0⟩ (hunconstrained _ (by decide))
      ⟨0, 0, ⟨.scalar, 32⟩, _, _, rfl, rfl, rfl, rfl⟩
  · refine hnone ⟨2⟩ (hunconstrained _ (by decide)) ?_
    rintro j k v ⟨i, c, hi, _, hop, _⟩
    have hmem := List.mem_of_getElem? hop
    rcases List.mem_cons.1 (List.mem_of_getElem? hi) with rfl | hi
    · exact absurd hmem (by decide)
    · rw [List.mem_singleton.1 hi] at hmem
      exact absurd hmem (by decide)

end Lowering.Selection
