import Lowering.Proofs.Settling
import Mathlib.Computability.StateTransition

/-!
# Lowering — selection step by step

Selection once more as a machine that looks at one register, one instruction or one demand at a
time, so that it can be said what holds between its steps. `Selection.step` is one step and `Point`
what it starts from: the banks as they stand and what is still to be looked at.

* `Selection.reaches_done_iff` — the machine comes to an end with some banks exactly if selection
  ends with these banks, so its points are those that selection goes through.
* `Selection.reaches_extends` — from one point to any later one, no bank is changed or removed.
-/

namespace Lowering.Selection

open StateTransition

variable {t : Target} {mode : Mode} {env : Env} {instrs : List Instr}

/-! ## The machine

The steps are those of the source's loops: over the registers that may be constrained, over the
instructions, and over the demands of each mapping. What is recorded on the way, the choices and the
copies, is left out of the points, since it is never looked at again. -/

/-- What selection has still to look at, and the banks as they stand. -/
inductive Point where
  /-- The registers that may be constrained to a class. -/
  | seeding (banks : RegMap Bank) (regs : List Reg)
  /-- The instructions that have no mapping yet. -/
  | choosing (banks : RegMap Bank) (rest : List Instr)
  /-- The demands of the mapping chosen last, and the instructions after it. -/
  | settling (banks : RegMap Bank) (demands : List Demand) (rest : List Instr)

namespace Point

/-- The banks as they stand at the point. -/
def banks : Point → RegMap Bank
  | seeding banks _ | choosing banks _ | settling banks _ _ => banks

/-- In front of the first register, with no banks. -/
def start (instrs : List Instr) : Point :=
  seeding ∅ (instrs.flatMap Instr.regs)

/-- Behind the last instruction. -/
def done (banks : RegMap Bank) : Point :=
  choosing banks []

end Point

/-- The next point; there is none at the end of the stream or where a fault ends selection. Each
step does the least that the order of things allows: it constrains one register, chooses for one
instruction, or settles one demand. -/
def step (t : Target) (mode : Mode) (env : Env) (instrs : List Instr) : Point → Option Point
  | .seeding banks [] => some (.choosing banks instrs)
  | .seeding banks (r :: rs) => some (.seeding (constrain t env banks r) rs)
  | .choosing _ [] => none
  | .choosing banks (i :: is) =>
    match (choose t mode env banks i).result with
    | .ok chosen => some (.settling banks (chosen.mapping.demands i) is)
    | .error _ => none
  | .settling banks [] is => some (.choosing banks is)
  | .settling banks (d :: ds) is =>
    match banks[d.reg]? with
    | none => some (.settling (banks.insert d.reg d.value.bank) ds is)
    | some b =>
      if b = d.value.bank then some (.settling banks ds is)
      else
        match t.copyCost b d.value.bank d.value.width with
        | .ok _ => some (.settling banks ds is)
        | .error _ => none

/-- What one step can do, with the guard under which it does it. A constructor for each kind of step
names the facts that later proofs take from it. -/
inductive Step (t : Target) (mode : Mode) (env : Env) (instrs : List Instr) :
    Point → Point → Prop where
  | constrain {banks : RegMap Bank} {r : Reg} {rs : List Reg} :
      Step t mode env instrs (.seeding banks (r :: rs)) (.seeding (constrain t env banks r) rs)
  | seeded {banks : RegMap Bank} :
      Step t mode env instrs (.seeding banks []) (.choosing banks instrs)
  | choose {banks : RegMap Bank} {i : Instr} {is : List Instr} {chosen : Priced}
      (hchosen : (choose t mode env banks i).result = .ok chosen) :
      Step t mode env instrs (.choosing banks (i :: is))
        (.settling banks (chosen.mapping.demands i) is)
  | place {banks : RegMap Bank} {d : Demand} {ds : List Demand} {is : List Instr}
      (hd : banks[d.reg]? = none) :
      Step t mode env instrs (.settling banks (d :: ds) is)
        (.settling (banks.insert d.reg d.value.bank) ds is)
  | stay {banks : RegMap Bank} {d : Demand} {ds : List Demand} {is : List Instr}
      (hd : banks[d.reg]? = some d.value.bank) :
      Step t mode env instrs (.settling banks (d :: ds) is) (.settling banks ds is)
  | copy {banks : RegMap Bank} {d : Demand} {ds : List Demand} {is : List Instr} {b : Bank}
      {cost : Nat} (hd : banks[d.reg]? = some b) (hne : b ≠ d.value.bank)
      (hcost : t.copyCost b d.value.bank d.value.width = .ok cost) :
      Step t mode env instrs (.settling banks (d :: ds) is) (.settling banks ds is)
  | settled {banks : RegMap Bank} {is : List Instr} :
      Step t mode env instrs (.settling banks [] is) (.choosing banks is)

/-- The steps that the machine takes, taken apart. Later proofs are case splits on `Step` and do not
open the machine. -/
theorem step_of_mem {x y : Point} (h : y ∈ step t mode env instrs x) :
    Step t mode env instrs x y := by
  cases x with
  | seeding banks rs =>
    cases rs with
    | nil =>
      cases h
      exact .seeded
    | cons r rs =>
      cases h
      exact .constrain
  -- without a choice there is no step, be it that the instructions are over or that one faults
  | choosing banks is =>
    cases is with
    | nil => cases h
    | cons i is =>
      simp only [step] at h
      split at h
      · next hchosen =>
        cases h
        exact .choose hchosen
      · cases h
  | settling banks ds is =>
    cases ds with
    | nil =>
      cases h
      exact .settled
    | cons d ds =>
      simp only [step] at h
      split at h
      · next hd =>
        cases h
        exact .place hd
      · next hd =>
        split at h
        · next heq =>
          cases h
          exact .stay (heq ▸ hd)
        · next hne =>
          split at h
          · next hcost =>
            cases h
            exact .copy hd hne hcost
          · cases h

/-! ## No bank is changed

A demand is settled only where a register has no bank. A constraint is applied in any case, so there
it has to be known that a bank that is there already is that of the constraint; this holds as long
as nothing else has given out banks. -/

/-- While the constraints are looked at, the only banks are those of classes. -/
def Point.Constrained (t : Target) (env : Env) : Point → Prop
  | .seeding banks _ =>
    ∀ (r : Reg) (b : Bank), banks[r]? = some b → (env.classOf r).map t.bankOfClass = some b
  | _ => True

/-- Applying a constraint keeps the banks that are there. -/
theorem constrain_extends {banks : RegMap Bank} {rs : List Reg} (r : Reg)
    (h : (Point.seeding banks rs).Constrained t env) : Extends banks (constrain t env banks r) := by
  intro s b hs
  rw [getElem?_constrain]
  split
  · -- a bank that is there already is the one of the class, which is put there again
    rw [h s b hs]
    rfl
  · exact hs

/-- After a constraint has been applied, the only banks are still those of classes. -/
theorem constrain_constrained {banks : RegMap Bank} {rs : List Reg} (r : Reg)
    (h : (Point.seeding banks (r :: rs)).Constrained t env) :
    (Point.seeding (constrain t env banks r) rs).Constrained t env := by
  intro s b hs
  rw [getElem?_constrain] at hs
  split at hs
  · rcases Option.or_eq_some_iff.1 hs with hclass | ⟨_, hbank⟩
    · exact hclass
    · exact h s b hbank
  · exact h s b hs

theorem insert_extends {banks : RegMap Bank} {r : Reg} (b : Bank) (h : banks[r]? = none) :
    Extends banks (banks.insert r b) := by
  intro s x hs
  rw [RegMap.getElem?_insert]
  split
  · next hrs =>
    rw [← hrs, h] at hs
    cases hs
  · exact hs

/-- One step keeps every bank, and the invariant of the constraints. -/
theorem Step.extends {x y : Point} (h : Step t mode env instrs x y) (hx : x.Constrained t env) :
    Extends x.banks y.banks ∧ y.Constrained t env := by
  cases h with
  | constrain => exact ⟨constrain_extends _ hx, constrain_constrained _ hx⟩
  | place hd => exact ⟨insert_extends _ hd, trivial⟩
  | seeded => exact ⟨.refl _, trivial⟩
  | choose hchosen => exact ⟨.refl _, trivial⟩
  | stay hd => exact ⟨.refl _, trivial⟩
  | copy hd hne hcost => exact ⟨.refl _, trivial⟩
  | settled => exact ⟨.refl _, trivial⟩

/-- The invariant along a run, and with it that every bank is kept. -/
theorem reaches_constrained {x y : Point} (hx : x.Constrained t env)
    (h : Reaches (step t mode env instrs) x y) :
    Extends x.banks y.banks ∧ y.Constrained t env := by
  -- along the run, from its first point on: the invariant is what the next step needs
  induction h with
  | refl => exact ⟨.refl _, hx⟩
  | tail _ hstep ih =>
    obtain ⟨hext, hinv⟩ := (step_of_mem hstep).extends ih.2
    exact ⟨ih.1.trans hext, hinv⟩

/-- From a point of the run to any later one, no bank is changed or removed. -/
theorem reaches_extends {x y : Point} (hx : Reaches (step t mode env instrs) (.start instrs) x)
    (h : Reaches (step t mode env instrs) x y) : Extends x.banks y.banks := by
  have hstart : (Point.start instrs).Constrained t env := by
    intro r b hr
    rw [Std.ExtTreeMap.getElem?_empty] at hr
    cases hr
  exact (reaches_constrained (reaches_constrained hstart hx).2 h).1

/-! ## The machine ends as selection does

One direction follows selection and shows that the machine takes the same way, loop by loop. The
other goes from the end of the machine backwards, and shows of each point that selection would go on
from it in the same way. -/

/-- The loop over the constraints. Induction on the registers. -/
theorem reaches_seeded (banks : RegMap Bank) (rs : List Reg) :
    Reaches (step t mode env instrs) (.seeding banks rs)
      (.choosing (rs.foldl (constrain t env) banks) instrs) := by
  induction rs generalizing banks with
  | nil => exact .single rfl
  | cons r rs ih => exact .head rfl (ih _)

/-- The loop over the demands of one instruction. Induction on the demands, one case for each way to
settle one. -/
theorem reaches_settled {k : Nat} {banks banks' : RegMap Bank} {ds : List Demand}
    {is : List Instr} {rs : List Repair} (h : (settle t k banks ds).result = .ok (rs, banks')) :
    Reaches (step t mode env instrs) (.settling banks ds is) (.choosing banks' is) := by
  induction ds generalizing banks rs with
  | nil =>
    cases h
    exact .single rfl
  | cons d ds ih =>
    -- each way to settle a demand is one step of the machine
    obtain ⟨hd, hrest⟩ | ⟨hd, hrest⟩ | ⟨b, cost, rs', hd, hne, hcost, hrest, rfl⟩ :=
      settle_cons_eq_ok.1 h
    · exact .head (by simp [step, hd]) (ih hrest)
    · exact .head (by simp [step, hd]) (ih hrest)
    · exact .head (by simp [step, hd, hne, hcost]) (ih hrest)

/-- The loop over the instructions, each with the loop over its demands within. Induction on the
instructions. -/
theorem reaches_walked {k : Nat} {banks : RegMap Bank} {is : List Instr} {s : Selection}
    (h : (walk t mode env k banks is).result = .ok s) :
    Reaches (step t mode env instrs) (.choosing banks is) (.done s.banks) := by
  induction is generalizing k banks s with
  | nil =>
    cases h
    exact .refl
  | cons i is ih =>
    obtain ⟨chosen, repairs, mid, later, hchosen, hsettle, hlater, rfl⟩ := walk_cons_eq_ok.1 h
    have hrest := ih hlater
    exact .head (by simp [step, hchosen]) ((reaches_settled hsettle).trans hrest)

/-- Selection goes on from a point to its end with the given banks, whatever number the instruction
at the point has. -/
def Point.EndsWith (t : Target) (mode : Mode) (env : Env) (instrs : List Instr) (b : RegMap Bank) :
    Point → Prop
  | .seeding banks rs => ∀ k, ∃ s,
    (walk t mode env k (rs.foldl (constrain t env) banks) instrs).result = .ok s ∧ s.banks = b
  | .choosing banks is => ∀ k, ∃ s, (walk t mode env k banks is).result = .ok s ∧ s.banks = b
  | .settling banks ds is => ∀ k, ∃ rs mid, (settle t k banks ds).result = .ok (rs, mid) ∧
    ∃ s, (walk t mode env (k + 1) mid is).result = .ok s ∧ s.banks = b

/-- If selection goes on from a point to its end, then also from the point a step before. -/
theorem Step.endsWith {b : RegMap Bank} {x y : Point} (h : Step t mode env instrs x y)
    (hy : y.EndsWith t mode env instrs b) : x.EndsWith t mode env instrs b := by
  cases h with
  | constrain => exact hy
  | seeded => exact hy
  | choose hchosen =>
    intro k
    obtain ⟨rs, mid, hsettle, later, hlater, hbanks⟩ := hy k
    exact ⟨_, walk_cons_eq_ok.2 ⟨_, rs, mid, later, hchosen, hsettle, hlater, rfl⟩, hbanks⟩
  | place hd =>
    intro k
    obtain ⟨rs, mid, hsettle, hlater⟩ := hy k
    exact ⟨rs, mid, settle_cons_eq_ok.2 (.inl ⟨hd, hsettle⟩), hlater⟩
  | stay hd =>
    intro k
    obtain ⟨rs, mid, hsettle, hlater⟩ := hy k
    exact ⟨rs, mid, settle_cons_eq_ok.2 (.inr (.inl ⟨hd, hsettle⟩)), hlater⟩
  | copy hd hne hcost =>
    intro k
    obtain ⟨rs, mid, hsettle, hlater⟩ := hy k
    exact ⟨_, mid, settle_cons_eq_ok.2 (.inr (.inr ⟨_, _, rs, hd, hne, hcost, hsettle, rfl⟩)),
      hlater⟩
  -- behind the demands of an instruction the next one is counted
  | settled => exact fun k => ⟨[], _, rfl, hy (k + 1)⟩

/-- The machine comes to an end with some banks exactly if selection does. So what is shown of the
points on the way is about selection as it is run, although that keeps no record of them. -/
theorem reaches_done_iff {b : RegMap Bank} :
    Reaches (step t mode env instrs) (.start instrs) (.done b) ↔
      ∃ s, (run t mode env instrs).result = .ok s ∧ s.banks = b := by
  constructor
  · intro h
    -- from the end backwards: what ends with these banks after a step does so before it
    have hdone : (Point.done b).EndsWith t mode env instrs b := fun _ => ⟨_, rfl, rfl⟩
    have hstart : (Point.start instrs).EndsWith t mode env instrs b := by
      refine Relation.ReflTransGen.head_induction_on h hdone ?_
      intro x y hstep _ ih
      exact (step_of_mem hstep).endsWith ih
    obtain ⟨s, hwalk, hbanks⟩ := hstart 0
    exact ⟨s, run_eq_ok.2 ⟨_, seed_result instrs, hwalk⟩, hbanks⟩
  · rintro ⟨s, hrun, rfl⟩
    obtain ⟨banks, hseed, hwalk⟩ := run_eq_ok.1 hrun
    rw [seed_result] at hseed
    cases hseed
    exact (reaches_seeded ∅ _).trans (reaches_walked hwalk)

end Lowering.Selection
