import Lowering.Proofs.Prices
import Lowering.Proofs.Settling
import Lowering.Target.Gpu

/-!
# Lowering — the choices of a selection

Selection comes to an instruction with the banks that all constraints and the instructions before it
have settled (`Selection.upTo`), and what it does there depends on nothing else
(`Selection.run_at`). So the choice for every instruction can be told from the target and these
banks alone: it is the first of the cheapest of the mappings that the mode weighs, at its price
(`Selection.run_choices`).
-/

namespace Lowering.Selection

variable {t : Target} {mode : Mode} {env : Env}

/-! ## Streams in two parts -/

/-- Going over a stream in two parts: the second part starts from the banks where the first ends,
and its instructions are numbered behind those of the first. Induction on the first part. -/
theorem walk_append_eq_ok {k : Nat} {banks : RegMap Bank} {is js : List Instr} {s : Selection} :
    (walk t mode env k banks (is ++ js)).result = .ok s ↔
      ∃ first second, (walk t mode env k banks is).result = .ok first ∧
        (walk t mode env (k + is.length) first.banks js).result = .ok second ∧
        s = ⟨first.choices ++ second.choices, first.repairs ++ second.repairs, second.banks⟩ := by
  induction is generalizing k banks s with
  | nil =>
    constructor
    · exact fun h => ⟨_, s, rfl, h, rfl⟩
    · rintro ⟨first, second, hfirst, hsecond, rfl⟩
      cases hfirst
      exact hsecond
  | cons i is ih =>
    -- the second part is numbered behind the first, which has one instruction more than its rest
    rw [List.cons_append, List.length_cons, Nat.add_comm is.length, ← Nat.add_assoc]
    constructor
    · intro h
      obtain ⟨chosen, repairs, mid, later, hchosen, hsettle, hlater, rfl⟩ := walk_cons_eq_ok.1 h
      obtain ⟨first, second, hfirst, hsecond, rfl⟩ := ih.1 hlater
      exact ⟨_, second, walk_cons_eq_ok.2 ⟨chosen, repairs, mid, first, hchosen, hsettle, hfirst,
        rfl⟩, hsecond, by simp⟩
    · rintro ⟨first, second, hfirst, hsecond, rfl⟩
      obtain ⟨chosen, repairs, mid, later, hchosen, hsettle, hlater, rfl⟩ :=
        walk_cons_eq_ok.1 hfirst
      exact walk_cons_eq_ok.2 ⟨chosen, repairs, mid, _, hchosen, hsettle,
        ih.2 ⟨later, second, hlater, hsecond, rfl⟩, by simp⟩

/-- What is decided when selection comes to instruction number `j`. The constraints are those of the
whole stream. -/
def upTo (t : Target) (mode : Mode) (env : Env) (instrs : List Instr) (j : Nat) :
    Traced Selection := do
  let banks ← seed t env instrs
  walk t mode env 0 banks (instrs.take j)

/-- Selection around one instruction: what was decided before it, its choice, its copies, and what
is decided after it. -/
theorem run_at {instrs : List Instr} {s : Selection} {j : Nat} {i : Instr}
    (h : (run t mode env instrs).result = .ok s) (hi : instrs[j]? = some i) :
    ∃ (earlier : Selection) (chosen : Priced) (repairs : List Repair) (mid : RegMap Bank)
      (later : Selection),
      (upTo t mode env instrs j).result = .ok earlier ∧
      (choose t mode env earlier.banks i).result = .ok chosen ∧
      (settle t j earlier.banks (chosen.mapping.demands i)).result = .ok (repairs, mid) ∧
      (walk t mode env (j + 1) mid (instrs.drop (j + 1))).result = .ok later ∧
      earlier.choices.length = j ∧
      s = ⟨earlier.choices ++ ⟨j, chosen.mapping, chosen.total⟩ :: later.choices,
        earlier.repairs ++ (repairs ++ later.repairs), later.banks⟩ := by
  obtain ⟨banks, hseed, hwalk⟩ := run_eq_ok.1 h
  obtain ⟨hj, rfl⟩ := List.getElem?_eq_some_iff.1 hi
  have hlength : (instrs.take j).length = j := List.length_take_of_le (Nat.le_of_lt hj)
  -- the stream is what stands before the instruction, the instruction, and the rest
  rw [← List.take_append_drop j instrs, List.drop_eq_getElem_cons hj] at hwalk
  obtain ⟨earlier, rest, hearlier, hrest, rfl⟩ := walk_append_eq_ok.1 hwalk
  rw [hlength, Nat.zero_add] at hrest
  obtain ⟨chosen, repairs, mid, later, hchosen, hsettle, hlater, rfl⟩ := walk_cons_eq_ok.1 hrest
  exact ⟨earlier, chosen, repairs, mid, later, Traced.bind_eq_ok.2 ⟨banks, hseed, hearlier⟩,
    hchosen, hsettle, hlater, (length_choices_of_walk hearlier).trans hlength, rfl⟩

/-! ## The choices

What `choose` weighs and how it decides is known from `choose_eq_ok`; here it is said of every
instruction of a stream, with the banks that stand there when selection comes to it. -/

/-- There is one choice for each instruction, in order. It is at the price of its mapping as the
banks stand when selection comes to the instruction; the mapping is the target's own in the fast
mode, and in the greedy mode the earliest of the cheapest of all that the target has. -/
theorem run_choices {instrs : List Instr} {s : Selection}
    (h : (run t mode env instrs).result = .ok s) :
    s.choices.map Choice.instr = List.range instrs.length ∧
      ∀ j i c, instrs[j]? = some i → s.choices[j]? = some c →
        ∃ earlier, (upTo t mode env instrs j).result = .ok earlier ∧
          earlier.choices = s.choices.take j ∧
          IsPrice t earlier.banks i c.mapping c.total ∧
          (mode = .fast → (t.mapping env i).result = .ok c.mapping) ∧
          (mode = .greedy → ∃ ms, (t.possibleMappings env i).result = .ok ms ∧
            FirstCheapest t earlier.banks i ms c.mapping c.total) := by
  refine ⟨?_, ?_⟩
  · obtain ⟨banks, _, hwalk⟩ := run_eq_ok.1 h
    exact (walk_eq_ok hwalk).1.trans List.range_eq_range'.symm
  · intro j i c hi hc
    obtain ⟨earlier, chosen, repairs, mid, later, hearlier, hchosen, _, _, hlength, rfl⟩ :=
      run_at h hi
    -- as many choices were made before it as there are instructions before it
    rw [List.getElem?_append_right (Nat.le_of_eq hlength), hlength, Nat.sub_self] at hc
    cases hc
    obtain ⟨ms, hms, hcheapest⟩ := choose_eq_ok hchosen
    refine ⟨earlier, hearlier, ?_, hcheapest.isPrice, ?_, ?_⟩
    · rw [List.take_append_of_le_length (Nat.le_of_eq hlength.symm), List.take_of_length_le
        (Nat.le_of_eq hlength)]
    · rintro rfl
      exact (choose_fast_eq_ok hchosen).1
    · rintro rfl
      exact ⟨ms, hms, hcheapest⟩

/-- A load whose address lives in the scalar bank: the target's own mapping is vector and would copy
the address, so the first alternative is chosen. -/
theorem run_choices_load :
    let env : Env := ⟨fun _ => some 32, fun r => if r = ⟨0⟩ then some .sreg64 else none,
      fun _ => false⟩
    let i : Instr := ⟨.load, [.reg ⟨1⟩, .reg ⟨0⟩], 1, [.divergent], by decide⟩
    ∃ s c earlier ms, (run gpu .greedy env [i]).result = .ok s ∧
      s.choices.map Choice.instr = [0] ∧ s.choices[0]? = some c ∧ c.total = 1 ∧
      (gpu.possibleMappings env i).result = .ok ms ∧ ms.length = 4 ∧
      (upTo gpu .greedy env [i] 0).result = .ok earlier ∧
      FirstCheapest gpu earlier.banks i ms c.mapping c.total := by
  intro env i
  obtain ⟨hnumbers, hchoices⟩ :=
    run_choices (show (run gpu .greedy env [i]).result = _ from rfl)
  obtain ⟨earlier, hearlier, _, _, _, hgreedy⟩ := hchoices 0 i _ rfl rfl
  obtain ⟨ms, hms, hcheapest⟩ := hgreedy rfl
  refine ⟨_, _, earlier, ms, rfl, hnumbers, rfl, rfl, hms, ?_, hearlier, hcheapest⟩
  cases hms
  rfl

end Lowering.Selection
