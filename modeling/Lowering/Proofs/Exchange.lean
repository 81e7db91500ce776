import Lowering.Proofs.Agreement

/-!
# Lowering — instructions that share no register

Two instructions next to each other that share no register are independent: what the one settles is
not looked at for the other, so each of them gets the same choice and the same copies in either
order (`Selection.walk_pair_exchange`), and the banks behind both of them are the same
(`Selection.Filled.comm`). The rest of the stream then finds the same table, and selection as a whole
differs only in the numbers of the two (`Selection.run_exchange`).
-/

namespace Lowering

namespace Cost

/-- What costs come to does not depend on their order. Induction on the permutation. -/
theorem amount_perm {costs others : List Nat} (h : costs.Perm others) :
    amount costs = amount others := by
  induction h with
  | nil => rfl
  | cons c _ ih => rw [amount_cons, amount_cons, ih]
  | swap c d costs =>
    simp only [amount_cons]
    omega
  | trans _ _ ih ih' => exact ih.trans ih'

/-- The sum of costs does not depend on their order, also where it is a fault. -/
theorem sum_perm {costs others : List Nat} (h : costs.Perm others) : sum costs = sum others :=
  sum_congr (amount_perm h)

end Cost

namespace Selection

variable {t : Target} {mode : Mode} {env : Env} {k : Nat} {x y : Instr}

/-! ## Two selections

The instructions that are exchanged keep what was decided for them and only trade places, so the two
selections are compared part by part: before the two, the two, and behind them. -/

/-- Two selections over streams that differ in the order of the instructions `n` and `n + 1` alone:
all banks and the total are the same, and so are the choice and the copies for every instruction,
but that those for these two have changed their numbers and their places. -/
structure Exchanged (n : Nat) (s s' : Selection) : Prop where
  banks : s'.banks = s.banks
  totalCost : s'.totalCost = s.totalCost
  choices : ∃ (before : List Choice) (x y : Priced) (after : List Choice), before.length = n ∧
    s.choices = before ++ ⟨n, x.mapping, x.total⟩ :: ⟨n + 1, y.mapping, y.total⟩ :: after ∧
    s'.choices = before ++ ⟨n, y.mapping, y.total⟩ :: ⟨n + 1, x.mapping, x.total⟩ :: after
  repairs : ∃ before xs ys after : List Repair,
    (∀ c ∈ before, c.instr < n) ∧ (∀ c ∈ after, n + 1 < c.instr) ∧
    s.repairs = before ++ (xs.map (.renumber n) ++ ys.map (.renumber (n + 1))) ++ after ∧
    s'.repairs = before ++ (ys.map (.renumber n) ++ xs.map (.renumber (n + 1))) ++ after

/-! ## Tables

The table behind two instructions is the one before them, filled with the demands of both. Where the
registers differ, filling in one order or the other comes to the same, entry by entry. -/

/-- A register on which nothing is demanded keeps its entry. -/
theorem Filled.frame {a b : RegMap Bank} {ds : List Demand} {r : Reg} (h : Filled a ds b)
    (hr : ∀ d ∈ ds, d.reg ≠ r) : b[r]? = a[r]? := by
  rw [h r, firstDemand_eq_none.2 hr, Option.or_none]

/-- Demands on different registers fill a table alike in either order. Every register has demands of
one of the two instructions at the most, so the other leaves its entry alone. -/
theorem Filled.comm {a b c b' c' : RegMap Bank} {ds es : List Demand}
    (hds : Filled a ds b) (hes : Filled b es c) (hes' : Filled a es b') (hds' : Filled b' ds c')
    (hne : ∀ d ∈ ds, ∀ e ∈ es, d.reg ≠ e.reg) : c = c' := by
  refine Std.ExtTreeMap.ext_getElem? fun r => ?_
  by_cases hr : ∃ d ∈ ds, d.reg = r
  · obtain ⟨d, hd, rfl⟩ := hr
    have hother : ∀ e ∈ es, e.reg ≠ d.reg := fun e he => (hne d hd e he).symm
    rw [hes.frame hother, hds d.reg, hds' d.reg, hes'.frame hother]
  · have hother : ∀ d ∈ ds, d.reg ≠ r := fun d hd hreg => hr ⟨d, hd, hreg⟩
    rw [hds'.frame hother, hes' r, hes r, hds.frame hother]

/-- The constraints depend only on which registers the stream uses. -/
theorem seed_eq_of_regs {is js : List Instr}
    (h : ∀ r, r ∈ is.flatMap Instr.regs ↔ r ∈ js.flatMap Instr.regs) {a b : RegMap Bank}
    (ha : (seed t env is).result = .ok a) (hb : (seed t env js).result = .ok b) : a = b := by
  refine Std.ExtTreeMap.ext_getElem? fun r => ?_
  rw [seed_eq_ok ha, seed_eq_ok hb]
  simp only [h r]

/-! ## The two instructions

What is decided for the second of two instructions depends on the banks of its own registers, and
the first leaves these as they were. So the second could as well come first, and then the same is
true of the other. -/

/-- Two instructions in a row: the second is met with the banks that the first has left. This is
`walk_cons_eq_ok` twice, and the form in which the two are exchanged. -/
theorem walk_pair_eq_ok {banks : RegMap Bank} {s : Selection} :
    (walk t mode env k banks [x, y]).result = .ok s ↔
      ∃ (c d : Priced) (rs qs : List Repair) (mid last : RegMap Bank),
        (choose t mode env banks x).result = .ok c ∧
        (settle t k banks (c.mapping.demands x)).result = .ok (rs, mid) ∧
        (choose t mode env mid y).result = .ok d ∧
        (settle t (k + 1) mid (d.mapping.demands y)).result = .ok (qs, last) ∧
        s = ⟨[⟨k, c.mapping, c.total⟩, ⟨k + 1, d.mapping, d.total⟩], rs ++ qs, last⟩ := by
  constructor
  · intro h
    -- a stream of two is an instruction and a stream of one
    obtain ⟨c, rs, mid, later, hc, hrs, hlater, rfl⟩ := walk_cons_eq_ok.1 h
    obtain ⟨d, qs, last, none, hd, hqs, hnone, rfl⟩ := walk_cons_eq_ok.1 hlater
    cases hnone
    exact ⟨c, d, rs, qs, mid, last, hc, hrs, hd, hqs, by simp⟩
  · rintro ⟨c, d, rs, qs, mid, last, hc, hrs, hd, hqs, rfl⟩
    exact walk_cons_eq_ok.2 ⟨c, rs, mid, _, hc, hrs,
      walk_cons_eq_ok.2 ⟨d, qs, last, _, hd, hqs, rfl, rfl⟩, by simp⟩

/-- What two instructions in a row get: a choice and some copies for each, and the banks behind
both. -/
def inTurn (k : Nat) (c d : Priced) (rs qs : List Repair) (banks : RegMap Bank) : Selection :=
  ⟨[⟨k, c.mapping, c.total⟩, ⟨k + 1, d.mapping, d.total⟩],
    rs.map (.renumber k) ++ qs.map (.renumber (k + 1)), banks⟩

/-- In the other order, both instructions get what they got. The choices and the copies carry the
numbers of their new places, and the banks behind both are the same. -/
theorem walk_pair_exchange {banks : RegMap Bank} {s : Selection} (hxy : x.regs.Disjoint y.regs)
    (h : (walk t mode env k banks [x, y]).result = .ok s) :
    ∃ (c d : Priced) (rs qs : List Repair), s = inTurn k c d rs qs s.banks ∧
      (walk t mode env k banks [y, x]).result = .ok (inTurn k d c qs rs s.banks) := by
  obtain ⟨c, d, rs, qs, mid, last, hc, hrs, hd, hqs, rfl⟩ := walk_pair_eq_ok.1 h
  have hcx : ∀ e ∈ c.mapping.demands x, e.reg ∈ x.regs :=
    fun e he => InstrMapping.reg_mem_of_mem_demands he
  have hdy : ∀ e ∈ d.mapping.demands y, e.reg ∈ y.regs :=
    fun e he => InstrMapping.reg_mem_of_mem_demands he
  have hfirst := (settle_eq_ok hrs).1
  -- neither instruction settles a register that the other looks at
  have hmid : AgreeOn y.regs mid banks := by
    intro r hr
    refine hfirst.frame fun e he hreg => ?_
    exact hxy (hcx e he) (hreg ▸ hr)
  -- so the second instruction gets its choice also from the table before both
  rw [choose_agree hmid] at hd
  obtain ⟨mid', hqs', _⟩ := settle_agree k hdy hmid hqs
  have hsecond := (settle_eq_ok hqs').1
  have hmid' : AgreeOn x.regs banks mid' := by
    intro r hr
    refine (hsecond.frame fun e he hreg => ?_).symm
    exact hxy hr (hreg ▸ hdy e he)
  have hc' := hc
  rw [choose_agree hmid'] at hc'
  -- and the first one behind the second
  obtain ⟨last', hrs', _⟩ := settle_agree (k + 1) hcx hmid' hrs
  have hlast : last = last' :=
    hfirst.comm (settle_eq_ok hqs).1 hsecond (settle_eq_ok hrs').1
      fun e he e' he' hreg => hxy (hcx e he) (hreg ▸ hdy e' he')
  refine ⟨c, d, rs, qs, ?_, walk_pair_eq_ok.2 ⟨d, c, _, _, mid', last, hd, hqs', hc', ?_, rfl⟩⟩
  · rw [inTurn, map_renumber_of_settle hrs, map_renumber_of_settle hqs]
  · exact hlast ▸ hrs'

/-! ## The stream

What comes before the two instructions is not touched by their order, and what comes behind them is
met with the same banks and the same numbers. -/

/-- Whatever is decided before and after two instructions, it makes no difference to it in which
order they come. -/
theorem exchanged_inTurn {n : Nat} {c d : Priced} {rs qs : List Repair} {banks : RegMap Bank}
    {first last : Selection} (hlength : first.choices.length = n)
    (hfirst : ∀ e ∈ first.repairs, e.instr < n) (hlast : ∀ e ∈ last.repairs, n + 1 < e.instr) :
    Exchanged n
      ⟨first.choices ++ (inTurn n c d rs qs banks).choices ++ last.choices,
        first.repairs ++ (inTurn n c d rs qs banks).repairs ++ last.repairs, last.banks⟩
      ⟨first.choices ++ (inTurn n d c qs rs banks).choices ++ last.choices,
        first.repairs ++ (inTurn n d c qs rs banks).repairs ++ last.repairs, last.banks⟩ where
  banks := rfl
  totalCost := by
    refine Cost.sum_perm ?_
    -- the two prices are added up in the other order
    simp only [inTurn, List.map_append, List.map_cons, List.map_nil]
    exact ((List.Perm.swap c.total d.total []).append_left _).append_right _
  choices := ⟨first.choices, c, d, last.choices, hlength, by simp [inTurn], by simp [inTurn]⟩
  repairs := ⟨first.repairs, rs, qs, last.repairs, hfirst, hlast, rfl, rfl⟩

/-- The walk over the stream in three parts: before the two, the two, and behind them. The first
part is the same, the two leave the same banks in either order, and so the third part is the same
again; only the numbers of the two are swapped. -/
theorem walk_exchange (hxy : x.regs.Disjoint y.regs) {before after : List Instr}
    {banks : RegMap Bank} {s : Selection}
    (h : (walk t mode env 0 banks (before ++ [x, y] ++ after)).result = .ok s) :
    ∃ s', (walk t mode env 0 banks (before ++ [y, x] ++ after)).result = .ok s' ∧
      Exchanged before.length s s' := by
  obtain ⟨middle, last, hmiddle, hlast, rfl⟩ := walk_append_eq_ok.1 h
  obtain ⟨first, pair, hfirst, hpair, rfl⟩ := walk_append_eq_ok.1 hmiddle
  rw [Nat.zero_add] at hpair hlast
  obtain ⟨c, d, rs, qs, hturn, hturn'⟩ := walk_pair_exchange hxy hpair
  have hpair' : (walk t mode env (0 + before.length) first.banks [y, x]).result =
      .ok (inTurn before.length d c qs rs pair.banks) := by rwa [Nat.zero_add]
  have hmiddle' := walk_append_eq_ok.2 ⟨first, _, hfirst, hpair', rfl⟩
  -- the rest of the stream is met with the same banks and under the same numbers
  have hlast' : (walk t mode env (0 + (before ++ [y, x]).length) pair.banks after).result =
      .ok last := by
    rw [← hlast]
    simp only [List.length_append, List.length_cons, List.length_nil, Nat.zero_add]
  refine ⟨_, walk_append_eq_ok.2 ⟨_, last, hmiddle', hlast', rfl⟩, ?_⟩
  rw [hturn]
  refine exchanged_inTurn (length_choices_of_walk hfirst) ?_ ?_
  · intro e he
    have hlt := (instr_of_mem_walk hfirst he).2
    rwa [Nat.zero_add] at hlt
  · intro e he
    have hle := (instr_of_mem_walk hlast he).1
    simp only [List.length_append, List.length_cons, List.length_nil] at hle
    omega

/-- If selection ends in one order, it ends in the other, and the two selections are exchanged. The
constraints are the same, because both streams use the same registers. -/
theorem run_of_exchange (hxy : x.regs.Disjoint y.regs) {before after : List Instr} {s : Selection}
    (h : (run t mode env (before ++ [x, y] ++ after)).result = .ok s) :
    ∃ s', (run t mode env (before ++ [y, x] ++ after)).result = .ok s' ∧
      Exchanged before.length s s' := by
  obtain ⟨banks, hseed, hwalk⟩ := run_eq_ok.1 h
  obtain ⟨s', hwalk', hexchanged⟩ := walk_exchange hxy hwalk
  -- the constraints do not see the order in which registers are used
  have hregs : ∀ r, r ∈ (before ++ [x, y] ++ after).flatMap Instr.regs ↔
      r ∈ (before ++ [y, x] ++ after).flatMap Instr.regs := by
    intro r
    have hperm : (before ++ [x, y] ++ after).Perm (before ++ [y, x] ++ after) :=
      ((List.Perm.swap y x []).append_left before).append_right after
    exact (hperm.flatMap_right Instr.regs).mem_iff
  have hseed' : (seed t env (before ++ [y, x] ++ after)).result = .ok _ := seed_result _
  rw [← seed_eq_of_regs hregs hseed hseed'] at hseed'
  exact ⟨s', run_eq_ok.2 ⟨banks, hseed', hwalk'⟩, hexchanged⟩

/-- Two instructions next to each other that share no register can change places anywhere in a
stream: selection ends in both orders or in neither, and all that changes are the numbers of the
two. -/
theorem run_exchange (hxy : x.regs.Disjoint y.regs) (before after : List Instr) :
    ((∃ s, (run t mode env (before ++ [x, y] ++ after)).result = .ok s) ↔
        ∃ s', (run t mode env (before ++ [y, x] ++ after)).result = .ok s') ∧
      ∀ s s', (run t mode env (before ++ [x, y] ++ after)).result = .ok s →
        (run t mode env (before ++ [y, x] ++ after)).result = .ok s' →
          Exchanged before.length s s' := by
  refine ⟨⟨?_, ?_⟩, ?_⟩
  · rintro ⟨s, hs⟩
    obtain ⟨s', hs', _⟩ := run_of_exchange hxy hs
    exact ⟨s', hs'⟩
  · rintro ⟨s', hs'⟩
    obtain ⟨s, hs, _⟩ := run_of_exchange (fun r hy hx => hxy hx hy) hs'
    exact ⟨s, hs⟩
  · intro s s' hs hs'
    obtain ⟨s'', hs'', hexchanged⟩ := run_of_exchange hxy hs
    cases hs'.symm.trans hs''
    exact hexchanged

/-- Two stores of different constants: each has its copy, whichever of them comes first. -/
theorem run_exchange_stores :
    let env : Env := ⟨fun _ => some 32, fun _ => none, fun _ => true⟩
    let constant (r : Reg) : Instr := ⟨.constant, [.reg r, .imm 5], 1, [], Nat.le_succ 1⟩
    let store (v a : Reg) : Instr := ⟨.store, [.reg v, .reg a], 0, [], Nat.zero_le 2⟩
    ∃ s s', (run gpu .fast env ([constant ⟨0⟩, constant ⟨1⟩] ++
          [store ⟨0⟩ ⟨2⟩, store ⟨1⟩ ⟨3⟩] ++ [])).result = .ok s ∧
      (run gpu .fast env ([constant ⟨0⟩, constant ⟨1⟩] ++
          [store ⟨1⟩ ⟨3⟩, store ⟨0⟩ ⟨2⟩] ++ [])).result = .ok s' ∧
      Exchanged 2 s s' ∧ s.repairs.length = 2 := by
  intro env constant store
  have hxy : (store ⟨0⟩ ⟨2⟩).regs.Disjoint (store ⟨1⟩ ⟨3⟩).regs :=
    List.disjoint_iff_ne.2 (by decide)
  have hs : (run gpu .fast env ([constant ⟨0⟩, constant ⟨1⟩] ++
      [store ⟨0⟩ ⟨2⟩, store ⟨1⟩ ⟨3⟩] ++ [])).result = .ok _ := rfl
  have hs' : (run gpu .fast env ([constant ⟨0⟩, constant ⟨1⟩] ++
      [store ⟨1⟩ ⟨3⟩, store ⟨0⟩ ⟨2⟩] ++ [])).result = .ok _ := rfl
  exact ⟨_, _, hs, hs', (run_exchange hxy _ _).2 _ _ hs hs', rfl⟩

end Selection

end Lowering
