import Lowering.Proofs.Annotations

/-!
# Lowering — the first type of a register

Types that are declared in a row go through as long as they agree with the first one for the same
register, and the first that does not is where the declarations fail (`declareAll_eq_ok`,
`declareAll_eq_error`). So the types of a well-formed routine may stand behind any of the operands
that hold a register, if each type stands behind one of them at least, and a text with two types for
a register is refused on the line of the first operand that has another type than the first one of
its register (`Routine.parse_typesAt`).
-/

namespace Lowering

open Selection (Before)

/-! ## Declarations in a row

What `declareAll` finds depends on the first type that each register is given, and on nothing else.
A table that has entries already behaves as if these had been declared before. -/

namespace TypeTable

variable {types declared : TypeTable} {r : Reg} {ty : RegType}

/-- A declaration goes through where the register has no type yet, or this one. The table has the
type then, and all its other entries as they were. -/
theorem declare?_eq_some (h : types.declare? r ty = some declared) :
    (types[r]? = none ∨ types[r]? = some ty) ∧
      ∀ s, declared[s]? = types[s]?.or (if r = s then some ty else none) := by
  unfold declare? at h
  split at h
  · next old hold =>
    split at h
    · next heq =>
      cases h
      -- nothing was inserted, and the register has its type already
      refine ⟨.inr (heq ▸ hold), fun s => ?_⟩
      by_cases hs : r = s
      · rw [← hs, hold]
        rfl
      · rw [if_neg hs, Option.or_none]
    · cases h
  · next hnone =>
    cases h
    -- the type was inserted, for a register that had none
    refine ⟨.inl hnone, fun s => ?_⟩
    rw [RegMap.getElem?_insert]
    by_cases hs : r = s
    · rw [if_pos hs, if_pos hs, ← hs, hnone]
      rfl
    · rw [if_neg hs, if_neg hs, Option.or_none]

/-- What is declared is the type from then on. -/
theorem getElem?_declared (h : types.declare? r ty = some declared) : declared[r]? = some ty := by
  obtain ⟨hold, hget⟩ := declare?_eq_some h
  rw [hget, if_pos rfl]
  rcases hold with hold | hold <;> rw [hold] <;> rfl

/-- A declaration is refused only because the register has another type. -/
theorem declare?_eq_none (h : types.declare? r ty = none) :
    ∃ old, types[r]? = some old ∧ old ≠ ty := by
  unfold declare? at h
  split at h
  · next old hold =>
    split at h
    · cases h
    · next hne => exact ⟨old, hold, hne⟩
  · cases h

end TypeTable

variable {types declared : TypeTable} {ns : List Note} {n : Note}

/-- The first type of a register is the one that it has in the end, unless the table had one for it
at the start. Induction on the declarations. -/
theorem declareAll_eq_ok (h : declareAll types ns = .ok declared) (r : Reg) :
    declared[r]? = types[r]?.or ((ns.find? (·.reg = r)).map Note.type) := by
  induction ns generalizing types with
  | nil =>
    cases h
    exact Option.or_none.symm
  | cons n ns ih =>
    rw [declareAll] at h
    split at h
    · next mid hmid =>
      -- the first declaration comes before all others, also in the search
      rw [ih h, (TypeTable.declare?_eq_some hmid).2, Option.or_assoc, List.find?_cons]
      by_cases hr : n.reg = r <;> simp [hr]
    · cases h

/-- Declarations that go through agree with the types in the end. So any two of them for one
register agree with each other. -/
theorem type_of_declareAll (h : declareAll types ns = .ok declared) (hn : n ∈ ns) :
    declared[n.reg]? = some n.type := by
  induction ns generalizing types with
  | nil => cases hn
  | cons m ns ih =>
    rw [declareAll] at h
    split at h
    · next mid hmid =>
      rcases List.mem_cons.1 hn with rfl | hn
      · rw [declareAll_eq_ok h, TypeTable.getElem?_declared hmid]
        rfl
      · exact ih h hn
    · cases h

/-- Declarations fail at one that does not agree with the types before it, all of which have been
declared. -/
theorem declareAll_eq_error (h : declareAll types ns = .error n) :
    ∃ before after declared old, ns = before ++ n :: after ∧
      declareAll types before = .ok declared ∧ declared[n.reg]? = some old ∧ old ≠ n.type := by
  induction ns generalizing types with
  | nil => cases h
  | cons m ns ih =>
    rw [declareAll] at h
    split at h
    · next mid hmid =>
      obtain ⟨before, after, declared, old, rfl, hbefore, hold⟩ := ih h
      refine ⟨m :: before, after, declared, old, rfl, ?_, hold⟩
      rw [declareAll, hmid]
      exact hbefore
    · next hnone =>
      cases h
      -- this is the one that fails, so nothing has to come before it
      obtain ⟨old, hold⟩ := TypeTable.declare?_eq_none hnone
      exact ⟨[], ns, types, old, rfl, rfl, hold⟩

/-- Among declarations in the order of their places, the first that fails has another type than the
first one for its register, and those before it agree with each other. The order lets what stands
before a place in the list be told from its number. -/
theorem first_of_declareAll (hplaces : ns.Pairwise fun a b => Before a.place b.place)
    (h : declareAll ∅ ns = .error n) :
    (∃ m ∈ ns, m.reg = n.reg ∧ m.type ≠ n.type ∧
      ∀ q ∈ ns, q.reg = n.reg → ¬ Before q.place m.place) ∧
    ∀ q ∈ ns, ∀ m ∈ ns, Before q.place n.place → Before m.place n.place → q.reg = m.reg →
      q.type = m.type := by
  obtain ⟨before, after, declared, old, rfl, hbefore, hold, hne⟩ := declareAll_eq_error h
  constructor
  · rw [declareAll_eq_ok hbefore, Std.ExtTreeMap.getElem?_empty, Option.none_or] at hold
    obtain ⟨m, hfind, rfl⟩ := Option.map_eq_some_iff.1 hold
    obtain ⟨hreg, earlier, later, rfl, hearlier⟩ := List.find?_eq_some_iff_append.1 hfind
    -- nothing before the first declaration of the register is about it, and nothing behind is
    -- before it
    refine ⟨m, by simp, by simpa using hreg, hne, fun q hq hqreg hqm => ?_⟩
    rw [List.append_assoc, List.cons_append] at hq hplaces
    obtain ⟨_, hfrom, _⟩ := List.pairwise_append.1 hplaces
    rcases List.mem_append.1 hq with hq | hq
    · simpa [hqreg] using hearlier q hq
    · rcases List.mem_cons.1 hq with rfl | hq
      · exact hqm.asymm hqm
      · exact hqm.asymm ((List.pairwise_cons.1 hfrom).1 q hq)
  · -- what stands before the declaration that fails has been declared
    have hmem {q : Note} (hq : q ∈ before ++ n :: after) (hqn : Before q.place n.place) :
        q ∈ before := by
      obtain ⟨_, hfrom, _⟩ := List.pairwise_append.1 hplaces
      rcases List.mem_append.1 hq with hq | hq
      · exact hq
      · rcases List.mem_cons.1 hq with rfl | hq
        · exact absurd hqn hqn.asymm
        · exact absurd hqn ((List.pairwise_cons.1 hfrom).1 q hq).asymm
    intro q hq m hm hqn hmn hreg
    have hqtype := type_of_declareAll hbefore (hmem hq hqn)
    rw [hreg, type_of_declareAll hbefore (hmem hm hmn)] at hqtype
    exact (Option.some.inj hqtype).symm

namespace Routine

variable {f : Routine} {marks : Place → Option RegType} {p : Place} {r : Reg} {ty : RegType}

/-! ## Types at their places

The notes of a routine are the types behind its registers, in the order of their places. A statement
about them is one about places, and needs no list. -/

/-- At the place stands the register, with the type behind it. -/
def Noted (f : Routine) (marks : Place → Option RegType) (p : Place) (r : Reg) (ty : RegType) :
    Prop :=
  f.regAt? p = some r ∧ marks p = some ty

/-- The first type that stands behind the register. -/
def FirstNoted (f : Routine) (marks : Place → Option RegType) (r : Reg) (ty : RegType) : Prop :=
  ∃ p, Noted f marks p r ty ∧ ∀ q ty', Noted f marks q r ty' → ¬ Before q p

/-- At the place stands another type than the first one behind the same register. -/
def Deviates (f : Routine) (marks : Place → Option RegType) (p : Place) : Prop :=
  ∃ r ty first, Noted f marks p r ty ∧ FirstNoted f marks r first ∧ ty ≠ first

/-- A register stands at a place exactly if it is the operand in the slot of the instruction
there. -/
theorem regAt?_eq_some_iff :
    f.regAt? p = some r ↔ ∃ i, f.instrs[p.1]? = some i ∧ i.operands[p.2]? = some (.reg r) := by
  simp only [regAt?, Option.bind_eq_some_iff, Operand.reg?_eq_some_iff, exists_eq_right]

/-- The notes of a routine are the types at its places, no more and no less. -/
theorem mem_notes {n : Note} : n ∈ f.notes marks ↔ Noted f marks n.place n.reg n.type := by
  unfold notes Noted
  rw [List.mem_flatMap, regAt?_eq_some_iff]
  constructor
  · rintro ⟨⟨i, j⟩, hi, hn⟩
    obtain ⟨⟨op, k⟩, hop, hn⟩ := List.mem_filterMap.1 hn
    obtain ⟨r, hr, hn⟩ := Option.bind_eq_some_iff.1 hn
    obtain ⟨ty, hty, rfl⟩ := Option.map_eq_some_iff.1 hn
    have hget : i.operands[k]? = some op := List.mem_zipIdx_iff_getElem?.1 hop
    have hreg : op = .reg r := Operand.reg?_eq_some_iff.1 hr
    rw [hreg] at hget
    exact ⟨⟨i, List.mem_zipIdx_iff_getElem?.1 hi, hget⟩, hty⟩
  · rintro ⟨⟨i, hi, hop⟩, hty⟩
    refine ⟨(i, n.place.1), List.mem_zipIdx_iff_getElem?.2 hi, List.mem_filterMap.2 ?_⟩
    refine ⟨(.reg n.reg, n.place.2), List.mem_zipIdx_iff_getElem?.2 hop, ?_⟩
    exact Option.map_eq_some_iff.2 ⟨n.type, hty, rfl⟩

/-- The notes come in the order of their places: those of one instruction by their slots, and those
of an instruction before those of a later one. -/
theorem pairwise_notes (f : Routine) (marks : Place → Option RegType) :
    (f.notes marks).Pairwise fun a b => Before a.place b.place := by
  unfold notes
  rw [List.pairwise_flatMap]
  constructor
  · rintro ⟨i, j⟩ _
    unfold Instr.notes
    rw [List.pairwise_filterMap]
    refine (pairwise_zipIdx i.operands).imp ?_
    rintro ⟨op, k⟩ ⟨op', k'⟩ hlt a ha b hb
    -- two notes of one instruction are at the slots of their operands
    obtain ⟨_, _, ha⟩ := Option.bind_eq_some_iff.1 ha
    obtain ⟨_, _, rfl⟩ := Option.map_eq_some_iff.1 ha
    obtain ⟨_, _, hb⟩ := Option.bind_eq_some_iff.1 hb
    obtain ⟨_, _, rfl⟩ := Option.map_eq_some_iff.1 hb
    exact .inr ⟨rfl, hlt⟩
  · refine (pairwise_zipIdx f.instrs).imp ?_
    rintro ⟨i, j⟩ ⟨i', j'⟩ hlt a ha b hb
    -- two notes of different instructions have the numbers of these
    have haj : a.place.1 = j := place_of_mem_notes ha
    have hbj : b.place.1 = j' := place_of_mem_notes hb
    exact .inl (haj ▸ hbj ▸ hlt)

/-! ## The written form

The printer carries the types that are still to be written from operand to operand. Whether one is
written at an operand depends on whether its register stands at an operand before it, which can be
asked of every place on its own. -/

/-- The types that the routine has for the registers at some places. -/
def typesAt (f : Routine) (S : Place → Bool) (p : Place) : Option RegType :=
  if S p then (f.regAt? p).bind f.typeOf else none

/-- Places of registers that have a type, and at least one for each of these. -/
structure Covers (f : Routine) (S : Place → Bool) : Prop where
  typed : ∀ p, S p = true → ∃ r ty, f.regAt? p = some r ∧ f.typeOf r = some ty
  every : ∀ r ty, f.typeOf r = some ty → ∃ p, S p = true ∧ f.regAt? p = some r

/-- The operands before a place. -/
def operandsBefore (f : Routine) (p : Place) : List Operand :=
  (f.instrs.take p.1).flatMap Instr.operands ++
    f.instrs[p.1]?.toList.flatMap fun i => i.operands.take p.2

/-- Whether a register with a type stands at the place for the first time. -/
def isFirst (f : Routine) (p : Place) : Bool :=
  (f.regAt? p).any fun r => (f.typeOf r).isSome && .reg r ∉ f.operandsBefore p

/-- One operand is written with the type that its register still has to be given, if it has one. -/
theorem annotate_eq_marked (pending : TypeTable) (op : Operand) :
    (annotate pending op).1 = op.marked (op.reg?.bind fun r => pending[r]?) := by
  cases op with
  | imm v => rfl
  | symbol name => rfl
  | reg r =>
    change (annotate pending (.reg r)).1 = (Operand.reg r).marked pending[r]?
    cases hr : pending[r]? with
    | none =>
      rw [Reader.annotate_none hr]
      rfl
    | some ty =>
      rw [Reader.annotate_some hr]
      rfl

/-- Each operand is written with the types that are left behind those before it. Induction on the
operands; what is before an operand grows by the first one. -/
theorem annotateAll_eq_map (pending : TypeTable) (ops : List Operand) :
    (annotateAll pending ops).1 = ops.zipIdx.map fun (op, k) =>
      (annotate (annotateAll pending (ops.take k)).2 op).1 := by
  induction ops generalizing pending with
  | nil => rfl
  | cons op ops ih =>
    have hcons : (annotateAll pending (op :: ops)).1 =
        (annotate pending op).1 :: (annotateAll (annotate pending op).2 ops).1 := rfl
    rw [hcons, ih, List.zipIdx_cons, List.map_cons, List.zipIdx_succ, List.map_map]
    rfl

/-- Each line is written with the types that are left behind the lines before it, in the same
way. -/
theorem printFrom_eq_map (pending : TypeTable) (is : List Instr) :
    printFrom pending is = is.zipIdx.map fun (i, j) =>
      i.render (annotateAll
        (annotateAll pending ((is.take j).flatMap Instr.operands)).2 i.operands).1 ++ "\n" := by
  induction is generalizing pending with
  | nil => rfl
  | cons i is ih =>
    -- the first line is written with all pending types, the others with those that it leaves
    have hcons : printFrom pending (i :: is) =
        (i.render (annotateAll pending i.operands).1 ++ "\n") ::
          printFrom (annotateAll pending i.operands).2 is := rfl
    rw [hcons, ih, List.zipIdx_cons, List.map_cons, List.zipIdx_succ, List.map_map]
    refine congrArg₂ List.cons rfl (List.map_congr_left fun p _ => ?_)
    simp only [Function.comp, List.take_succ_cons, List.flatMap_cons, Reader.annotateAll_append]

/-- The type that the written form has behind an operand is that of its register, if it stands there
for the first time. What is still to be written behind some operands is what none of them holds. -/
theorem type_of_isFirst (f : Routine) {p : Place} {op : Operand} (hat : f.regAt? p = op.reg?) :
    (op.reg?.bind fun r => (annotateAll f.types (f.operandsBefore p)).2[r]?) =
      f.typesAt f.isFirst p := by
  unfold typesAt isFirst
  rw [hat]
  cases op.reg? with
  | none => rfl
  | some r =>
    -- what is still to be written of a register is all of it or nothing
    change (annotateAll f.types (f.operandsBefore p)).2[r]? =
      if ((f.typeOf r).isSome && decide (.reg r ∉ f.operandsBefore p)) = true
        then f.typeOf r else none
    rw [annotateAll_pending, show f.types[r]? = f.typeOf r from rfl]
    by_cases hmem : .reg r ∈ f.operandsBefore p <;> cases f.typeOf r <;> simp [hmem]

/-- The written form of a routine has the types of its registers where these stand first. Printing
takes types out of a table as it goes, and this tells the same by places, without the table. -/
theorem print_eq_marked (f : Routine) : f.print = f.marked (f.typesAt f.isFirst) := by
  unfold print marked
  rw [printFrom_eq_map]
  refine congrArg String.join (List.map_congr_left fun ⟨i, j⟩ hi => ?_)
  have hi : f.instrs[j]? = some i := List.mem_zipIdx_iff_getElem?.1 hi
  dsimp only
  rw [annotateAll_eq_map]
  refine congrArg (fun texts => i.render texts ++ "\n") (List.map_congr_left fun ⟨op, k⟩ hop => ?_)
  have hop : i.operands[k]? = some op := List.mem_zipIdx_iff_getElem?.1 hop
  have hat : f.regAt? (j, k) = op.reg? := by simp [regAt?, hi, hop]
  -- the operands before this one are those of the lines before and of this line
  have hpending : (annotateAll (annotateAll f.types ((f.instrs.take j).flatMap Instr.operands)).2
      (i.operands.take k)).2 = (annotateAll f.types (f.operandsBefore (j, k))).2 := by
    have hbefore : f.operandsBefore (j, k) =
        (f.instrs.take j).flatMap Instr.operands ++ i.operands.take k := by
      simp [operandsBefore, hi]
    rw [hbefore, Reader.annotateAll_append]
  dsimp only
  rw [hpending, annotate_eq_marked, type_of_isFirst f hat]

/-- A register that is used stands somewhere for the first time: in the first instruction that holds
it, at the first operand there that does. -/
theorem exists_first {i : Instr} (hi : i ∈ f.instrs) (hr : .reg r ∈ i.operands) :
    ∃ p, f.regAt? p = some r ∧ .reg r ∉ f.operandsBefore p := by
  -- the first instruction that holds the register, and then the first operand in it
  obtain ⟨i, before, after, hinstrs, hi, hbefore⟩ : ∃ i before after,
      f.instrs = before ++ i :: after ∧ .reg r ∈ i.operands ∧
        ∀ i' ∈ before, .reg r ∉ i'.operands := by
    have hfind : (f.instrs.find? fun i => .reg r ∈ i.operands).isSome = true :=
      List.find?_isSome.2 ⟨i, hi, decide_eq_true hr⟩
    obtain ⟨i, hi⟩ := Option.isSome_iff_exists.1 hfind
    obtain ⟨hi, before, after, hinstrs, hbefore⟩ := List.find?_eq_some_iff_append.1 hi
    exact ⟨i, before, after, hinstrs, of_decide_eq_true hi, by simpa using hbefore⟩
  obtain ⟨ops, ops', hops, hfirst⟩ := List.eq_append_cons_of_mem hi
  refine ⟨(before.length, ops.length), regAt?_eq_some_iff.2 ⟨i, ?_, ?_⟩, ?_⟩
  · simp [hinstrs]
  · simp [hops]
  · simpa [operandsBefore, hinstrs, hops] using ⟨hbefore, hfirst⟩

/-- In the written form every type of a well-formed routine is behind an operand, since every
register with a type is used. -/
theorem WellFormed.covers_isFirst (hform : f.WellFormed) : f.Covers f.isFirst where
  typed p hp := by
    obtain ⟨r, hr, hfirst⟩ := (Option.any_eq_true _ _).1 hp
    obtain ⟨ty, hty⟩ := Option.isSome_iff_exists.1 (Bool.and_eq_true_iff.1 hfirst).1
    exact ⟨r, ty, hr, hty⟩
  every r ty hty := by
    obtain ⟨i, hi, hr⟩ := hform.types r ty hty
    obtain ⟨p, hp, hfirst⟩ := exists_first hi hr
    exact ⟨p, by simp [isFirst, hp, hty, hfirst], hp⟩

/-! ## Types at any occurrence

Two things may come of types at some places. If they are those of the routine itself, none
contradicts another, and it only matters that none is missing. If two of them contradict each other,
the text is refused at the first that contradicts one before it. -/

/-- The types of the routine itself can be declared in any order and any number of times. As long as
the places cover every register that has a type, they all end up in the table, and since they agree
nothing conflicts. -/
theorem WellFormed.parse_covered (hform : f.WellFormed) {S : Place → Bool} (hS : f.Covers S) :
    parse (f.marked (f.typesAt S)) = .ok f := by
  -- every type that is declared is the one that the routine has
  have htype : ∀ n ∈ f.notes (f.typesAt S), f.types[n.reg]? = some n.type := by
    intro n hn
    obtain ⟨hreg, htype⟩ := mem_notes.1 hn
    unfold typesAt at htype
    rw [hreg] at htype
    split at htype
    · exact htype
    · cases htype
  rw [parse_marked hform.instrs]
  cases hdeclare : declareAll ∅ (f.notes (f.typesAt S)) with
  | error n =>
    obtain ⟨⟨m, hm, hreg, hne, _⟩, _⟩ := first_of_declareAll (pairwise_notes f _) hdeclare
    have hsame := htype m hm
    rw [hreg, htype n (mem_of_declareAll hdeclare)] at hsame
    exact absurd (Option.some.inj hsame).symm hne
  | ok declared =>
    have htypes : declared = f.types := by
      refine Std.ExtTreeMap.ext_getElem? fun r => ?_
      cases hty : f.types[r]? with
      | some ty =>
        obtain ⟨p, hp, hreg⟩ := hS.every r ty hty
        have hnote : ⟨p, r, ty⟩ ∈ f.notes (f.typesAt S) :=
          mem_notes.2 ⟨hreg, by simp [typesAt, hp, hreg, typeOf, hty]⟩
        exact type_of_declareAll hdeclare hnote
      | none =>
        rw [declareAll_eq_ok hdeclare, Std.ExtTreeMap.getElem?_empty, Option.none_or,
          Option.map_eq_none_iff, List.find?_eq_none]
        intro n hn hreg
        rw [← of_decide_eq_true hreg, htype n hn] at hty
        cases hty
    rw [htypes]

/-- Where two types stand behind one register, the text is refused at the first type that is not the
first one of its register. -/
theorem parse_conflict (hforms : ∀ i ∈ f.instrs, i.WellFormed) {q : Place} {ty' : RegType}
    (hp : f.Noted marks p r ty) (hq : f.Noted marks q r ty') (hne : ty ≠ ty') :
    ∃ p r ty, f.Noted marks p r ty ∧ f.Deviates marks p ∧
      (∀ q, f.Deviates marks q → ¬ Before q p) ∧
      parse (f.marked marks) = .error ⟨p.1 + 1, .conflictingType ty r⟩ := by
  have hmem {p : Place} {r : Reg} {ty : RegType} (h : f.Noted marks p r ty) :
      ⟨p, r, ty⟩ ∈ f.notes marks := mem_notes.2 h
  cases hdeclare : declareAll ∅ (f.notes marks) with
  | ok declared =>
    have hsame := type_of_declareAll hdeclare (hmem hp)
    rw [type_of_declareAll hdeclare (hmem hq)] at hsame
    exact absurd (Option.some.inj hsame).symm hne
  | error n =>
    obtain ⟨⟨m, hm, hreg, hother, hfirst⟩, hbefore⟩ :=
      first_of_declareAll (pairwise_notes f marks) hdeclare
    have hn := mem_notes.1 (mem_of_declareAll hdeclare)
    refine ⟨n.place, n.reg, n.type, hn, ?_, ?_, by rw [parse_marked hforms, hdeclare]; rfl⟩
    · refine ⟨n.reg, n.type, m.type, hn, ⟨m.place, hreg ▸ mem_notes.1 hm, ?_⟩, hother.symm⟩
      exact fun q ty' hq => hfirst _ (hmem hq) rfl
    · rintro q ⟨r, ty, first, hq, ⟨q', hq', hleast⟩, hdeviates⟩ hqn
      -- the first type of the register stands before the one that deviates from it, or at its place
      have hq'n : Before q' n.place := by
        have hnot := hleast q ty hq
        unfold Before at hqn hnot ⊢
        omega
      exact hdeviates (hbefore _ (hmem hq) _ (hmem hq') hqn hq'n rfl)

/-- The types of a routine that was read may stand behind any of the operands that hold a register
with a type, if each type stands behind one of them at least; the written form has each of them
once, where its register stands first. Where other types stand behind the operands and a register
has two of them, the text is refused on the line of the first operand whose type is not the first
one of its register. -/
theorem parse_typesAt {text : String} (htext : parse text = .ok f) :
    (f.Covers f.isFirst ∧ f.print = f.marked (f.typesAt f.isFirst)) ∧
    (∀ S, f.Covers S → parse (f.marked (f.typesAt S)) = .ok f) ∧
    ∀ marks, (∃ p q r ty ty', f.Noted marks p r ty ∧ f.Noted marks q r ty' ∧ ty ≠ ty') →
      ∃ p r ty, f.Noted marks p r ty ∧ f.Deviates marks p ∧
        (∀ q, f.Deviates marks q → ¬ Before q p) ∧
        parse (f.marked marks) = .error ⟨p.1 + 1, .conflictingType ty r⟩ := by
  have hform : f.WellFormed := wellFormed_of_parse htext
  refine ⟨⟨hform.covers_isFirst, print_eq_marked f⟩, fun S => hform.parse_covered, ?_⟩
  rintro marks ⟨p, q, r, ty, ty', hp, hq, hne⟩
  exact parse_conflict hform.instrs hp hq hne

/-- Both types behind the uses of a store, and then two types for the register that it stores. -/
theorem parse_typesAt_store :
    let text := "%0:s32 = G_CONSTANT 5\nG_STORE %0, %1:p64\n"
    let late (p : Place) : Bool := p = (1, 0) || p = (1, 1)
    let marks (p : Place) : Option RegType :=
      if p = (0, 0) then some (.scalar 32) else if p = (1, 0) then some (.scalar 64) else none
    ∃ f, parse text = .ok f ∧ f.print = text ∧ f.Covers late ∧
      f.marked (f.typesAt late) = "%0 = G_CONSTANT 5\nG_STORE %0:s32, %1:p64\n" ∧
      parse (f.marked (f.typesAt late)) = .ok f ∧
      f.marked marks = "%0:s32 = G_CONSTANT 5\nG_STORE %0:s64, %1\n" ∧
      parse (f.marked marks) = .error ⟨2, .conflictingType (.scalar 64) ⟨0⟩⟩ ∧
      ∃ k, f.Deviates marks (1, k) := by
  intro text late marks
  let f : Routine :=
    ⟨[⟨.constant, [.reg ⟨0⟩, .imm 5], 1, [], by decide⟩,
      ⟨.store, [.reg ⟨0⟩, .reg ⟨1⟩], 0, [], by decide⟩],
      ((∅ : TypeTable).insert ⟨0⟩ (.scalar 32)).insert ⟨1⟩ (.pointer 64)⟩
  have hparse : parse text = .ok f := by decide +kernel
  have hcovers : f.Covers late := by
    constructor
    · intro p hp
      rcases Bool.or_eq_true_iff.1 hp with hp | hp
      · rw [of_decide_eq_true hp]
        exact ⟨⟨0⟩, .scalar 32, rfl, rfl⟩
      · rw [of_decide_eq_true hp]
        exact ⟨⟨1⟩, .pointer 64, rfl, rfl⟩
    · intro r ty hty
      change (((∅ : TypeTable).insert ⟨0⟩ (.scalar 32)).insert ⟨1⟩ (.pointer 64))[r]? = some ty
        at hty
      rw [RegMap.getElem?_insert, RegMap.getElem?_insert, Std.ExtTreeMap.getElem?_empty] at hty
      split at hty
      · next hr => exact ⟨(1, 1), rfl, congrArg some hr⟩
      · split at hty
        · next hr => exact ⟨(1, 0), rfl, congrArg some hr⟩
        · cases hty
  obtain ⟨_, haccepted, hrefused⟩ := parse_typesAt hparse
  have herror : parse (f.marked marks) = .error ⟨2, .conflictingType (.scalar 64) ⟨0⟩⟩ := by
    decide +kernel
  obtain ⟨⟨j, k⟩, r, ty, _, hdeviates, _, hline⟩ := hrefused marks
    ⟨(0, 0), (1, 0), ⟨0⟩, .scalar 32, .scalar 64, ⟨rfl, rfl⟩, ⟨rfl, rfl⟩, by decide⟩
  rw [herror] at hline
  have hnumber : 2 = j + 1 := congrArg ParseError.line (Except.error.inj hline)
  obtain rfl : j = 1 := (Nat.succ.inj hnumber).symm
  exact ⟨f, hparse, by decide +kernel, hcovers, by decide +kernel, haccepted late hcovers,
    by decide +kernel, herror, k, hdeviates⟩

end Routine

end Lowering
