import Lowering.Proofs.FirstTypes

/-!
# Lowering — the two written forms of an instruction

`Instr.text` writes an instruction from left to right, with what separates two operands before the
second, and `Instr.render` joins the texts of its definitions and of its uses. Both come to the same
(`Instr.render_eq_spell`), so a routine without types is written as its instructions are, and types
are the only difference: each stands once, behind the first operand of the whole routine that holds
its register (`Routine.print_spelling`).
-/

namespace Lowering

open Selection (Before)

namespace Instr

variable {i : Instr} {texts : List String}

/-- The written form of an instruction, from left to right, with the given texts in its slots. -/
def spell (i : Instr) (texts : List String) : String :=
  spread "" (texts.take i.numDefs)
    ++ (if i.numDefs = 0 then "" else " = ")
    ++ i.opcode.name
    ++ spread " " (texts.drop i.numDefs)
    ++ i.accesses.foldl (fun written a => written ++ " :: " ++ a.text) ""

/-- The written form of an instruction with some text inserted right behind each operand. -/
def textWith (i : Instr) (behind : Nat → String) : String :=
  i.spell (i.operands.zipIdx.map fun p => p.1.text ++ behind p.2)

/-- Written from left to right with the texts of its operands, an instruction is its own text. -/
theorem spell_text (i : Instr) : i.spell (i.operands.map Operand.text) = i.text := by
  unfold spell text defs uses
  rw [List.map_take, List.map_drop]

theorem textWith_nothing (i : Instr) : (i.textWith fun _ => "") = i.text := by
  have htexts : i.operands.zipIdx.map (fun p => p.1.text ++ "") = i.operands.map Operand.text := by
    simp only [String.append_empty]
    exact (List.map_map (g := Operand.text) (f := Prod.fst)).symm.trans
      (congrArg (List.map Operand.text) (List.zipIdx_map_fst 0 i.operands))
  rw [textWith, htexts, spell_text]

/-- Texts written one after the other, with what separates two of them before the second, are these
texts joined. Induction on the texts. -/
theorem spread_eq (lead : String) (texts : List String) :
    spread lead texts = if texts.isEmpty then "" else lead ++ ", ".intercalate texts := by
  induction texts generalizing lead with
  | nil => rfl
  | cons t ts ih =>
    rw [spread, ih]
    cases ts with
    | nil => simp
    | cons u us => simp [String.append_assoc]

theorem foldl_accesses (accesses : List Access) :
    accesses.foldl (fun written a => written ++ " :: " ++ a.text) "" =
      String.join (accesses.map fun a => " :: " ++ a.text) := by
  simp only [String.join, List.foldl_map, String.append_assoc]

/-- Joining the texts of a row comes to the same as writing one after the other. -/
theorem render_eq_spell (h : texts.length = i.numOperands) : i.render texts = i.spell texts := by
  -- one form asks whether there are texts of definitions, the other whether there are definitions
  have hle : i.numDefs ≤ texts.length := h ▸ i.numDefs_le
  have hdefs : (texts.take i.numDefs).isEmpty = decide (i.numDefs = 0) := by
    rw [Bool.eq_iff_iff, List.isEmpty_iff_length_eq_zero, List.length_take, decide_eq_true_eq]
    omega
  unfold render spell
  rw [spread_eq, spread_eq, foldl_accesses]
  simp only [hdefs, decide_eq_true_eq]
  by_cases hnone : i.numDefs = 0
  · simp only [hnone, if_true, String.empty_append]
  · simp only [hnone, if_false, String.empty_append]

end Instr

/-- A type is written behind an operand with a colon before it. -/
theorem Operand.marked_eq {op : Operand} {mark : Option RegType}
    (h : op.reg? = none → mark = none) :
    op.marked mark = op.text ++ mark.elim "" fun ty => ":" ++ ty.text := by
  cases op with
  | reg r =>
    cases mark with
    | none => exact String.append_empty.symm
    | some ty => exact String.append_assoc
  | imm v =>
    rw [h rfl]
    exact String.append_empty.symm
  | symbol name =>
    rw [h rfl]
    exact String.append_empty.symm

namespace Routine

variable {f : Routine} {p q : Place} {r : Reg} {ty : RegType}

/-- The written form of a routine with some text inserted right behind each operand. -/
def textWith (f : Routine) (behind : Place → String) : String :=
  String.join (f.instrs.zipIdx.map fun p => p.1.textWith (fun k => behind (p.2, k)) ++ "\n")

/-- The register stands at the place, and nowhere before it. -/
def FirstAt (f : Routine) (p : Place) (r : Reg) : Prop :=
  f.regAt? p = some r ∧ ∀ q, f.regAt? q = some r → ¬Before q p

/-- The type that is written behind the operand at a place, if there is one. -/
def suffixAt (f : Routine) (p : Place) : String :=
  (f.typesAt f.isFirst p).elim "" fun ty => ":" ++ ty.text

/-- With nothing behind any operand, a routine is its instructions, one on each line. -/
theorem textWith_nothing (f : Routine) :
    (f.textWith fun _ => "") = String.join (f.instrs.map fun i => i.text ++ "\n") := by
  unfold textWith
  simp only [Instr.textWith_nothing]
  refine congrArg String.join ?_
  exact (List.map_map (g := fun i : Instr => i.text ++ "\n") (f := Prod.fst)).symm.trans
    (congrArg (List.map _) (List.zipIdx_map_fst 0 f.instrs))

/-- No type is written where there is no register. -/
theorem typesAt_eq_none (S : Place → Bool) (h : f.regAt? p = none) : f.typesAt S p = none := by
  unfold typesAt
  rw [h]
  split <;> rfl

/-- A routine is written as its instructions are, with the types behind some of the operands. -/
theorem print_eq_textWith (f : Routine) : f.print = f.textWith f.suffixAt := by
  rw [print_eq_marked]
  unfold marked textWith
  refine congrArg String.join (List.map_congr_left fun ⟨i, j⟩ hi => ?_)
  have hi : f.instrs[j]? = some i := List.mem_zipIdx_iff_getElem?.1 hi
  unfold Instr.marked Instr.textWith
  dsimp only
  rw [Instr.render_eq_spell (by simp [Instr.numOperands])]
  refine congrArg (fun texts => i.spell texts ++ "\n") (List.map_congr_left fun ⟨op, k⟩ hop => ?_)
  have hop : i.operands[k]? = some op := List.mem_zipIdx_iff_getElem?.1 hop
  have hat : f.regAt? (j, k) = op.reg? := by simp [regAt?, hi, hop]
  exact Operand.marked_eq fun hnone => typesAt_eq_none _ (hat.trans hnone)

/-! ## First occurrences

Where a type is written is decided from left to right, by looking for the register in what has been
written already. It is the same to say that the register stands nowhere before, in an earlier
instruction or in an earlier slot. -/

theorem mem_take_iff {α : Type} {a : α} {as : List α} {n : Nat} :
    a ∈ as.take n ↔ ∃ k, k < n ∧ as[k]? = some a := by
  rw [List.mem_iff_getElem?]
  refine exists_congr fun k => ?_
  rw [List.getElem?_take, Option.ite_none_right_eq_some]

/-- A register has been written already if it stands at an earlier place, on an earlier line or
further to the left on the same one. -/
theorem mem_operandsBefore :
    .reg r ∈ f.operandsBefore p ↔ ∃ q, f.regAt? q = some r ∧ Before q p := by
  simp only [operandsBefore, List.mem_append, List.mem_flatMap, Option.mem_toList, mem_take_iff,
    regAt?_eq_some_iff]
  constructor
  · intro h
    -- in an earlier instruction, or in an earlier slot of the same one
    obtain ⟨i, ⟨j, hj, hi⟩, hr⟩ | ⟨i, hi, k, hk, hr⟩ := h
    · obtain ⟨k, hk⟩ := List.mem_iff_getElem?.1 hr
      exact ⟨(j, k), ⟨i, hi, hk⟩, .inl hj⟩
    · exact ⟨(p.1, k), ⟨i, hi, hr⟩, .inr ⟨rfl, hk⟩⟩
  · intro h
    obtain ⟨q, ⟨i, hi, hr⟩, hlt | ⟨heq, hlt⟩⟩ := h
    · exact .inl ⟨i, ⟨q.1, hlt, hi⟩, List.mem_of_getElem? hr⟩
    · exact .inr ⟨i, heq ▸ hi, q.2, hlt, hr⟩

/-- A register stands at a place for the first time if it is not in what is written before. -/
theorem firstAt_iff : f.FirstAt p r ↔ f.regAt? p = some r ∧ .reg r ∉ f.operandsBefore p := by
  rw [mem_operandsBefore, FirstAt]
  simp only [not_exists, not_and]

/-- A type is written at a place exactly if a register stands there for the first time and has this
type. -/
theorem typesAt_isFirst_iff :
    f.typesAt f.isFirst p = some ty ↔ ∃ r, f.FirstAt p r ∧ f.typeOf r = some ty := by
  simp only [firstAt_iff]
  rw [typesAt, Option.ite_none_right_eq_some, Option.bind_eq_some_iff]
  constructor
  · intro h
    obtain ⟨hfirst, r, hr, hty⟩ := h
    rw [isFirst, hr, Option.any_some, Bool.and_eq_true, decide_eq_true_eq] at hfirst
    exact ⟨r, ⟨hr, hfirst.2⟩, hty⟩
  · intro h
    obtain ⟨r, ⟨hr, hfirst⟩, hty⟩ := h
    refine ⟨?_, r, hr, hty⟩
    rw [isFirst, hr, Option.any_some, hty, Bool.and_eq_true, decide_eq_true_eq]
    exact ⟨rfl, hfirst⟩

/-- A register cannot stand at two places for the first time. -/
theorem FirstAt.unique (hp : f.FirstAt p r) (hq : f.FirstAt q r) : p = q := by
  obtain ⟨hpr, hpfirst⟩ := hp
  obtain ⟨hqr, hqfirst⟩ := hq
  have hqp : ¬Before q p := hpfirst q hqr
  have hpq : ¬Before p q := hqfirst p hpr
  unfold Before at hqp hpq
  exact Prod.ext (by omega) (by omega)

/-- A register that is used stands at one place for the first time. -/
theorem existsUnique_firstAt {i : Instr} (hi : i ∈ f.instrs) (hr : .reg r ∈ i.operands) :
    ∃! p, f.FirstAt p r := by
  obtain ⟨p, hp, hfirst⟩ := exists_first hi hr
  have hat : f.FirstAt p r := firstAt_iff.2 ⟨hp, hfirst⟩
  exact ⟨p, hat, fun q hq => hq.unique hat⟩

/-- Behind the first occurrence of a register its type is written, with a colon before it. -/
theorem suffixAt_of_firstAt (hp : f.FirstAt p r) (hty : f.typeOf r = some ty) :
    f.suffixAt p = ":" ++ ty.text := by
  rw [suffixAt, typesAt_isFirst_iff.2 ⟨r, hp, hty⟩]
  rfl

theorem suffixAt_eq_empty (h : ∀ r, f.FirstAt p r → f.typeOf r = none) : f.suffixAt p = "" := by
  unfold suffixAt
  cases hty : f.typesAt f.isFirst p with
  | none => rfl
  | some ty =>
    obtain ⟨r, hr, hr'⟩ := typesAt_isFirst_iff.1 hty
    rw [h r hr] at hr'
    cases hr'

/-- A routine without types is written as its instructions are, one on each line. Types make no
other difference than that each stands right behind the first operand of the whole routine that
holds its register, with a colon before it. -/
theorem print_spelling (f : Routine) :
    (⟨f.instrs, ∅⟩ : Routine).print = String.join (f.instrs.map fun i => i.text ++ "\n") ∧
    (f.textWith fun _ => "") = String.join (f.instrs.map fun i => i.text ++ "\n") ∧
    (∃ behind : Place → String, f.print = f.textWith behind ∧
      (∀ p r ty, f.FirstAt p r → f.typeOf r = some ty → behind p = ":" ++ ty.text) ∧
      ∀ p, (∀ r, f.FirstAt p r → f.typeOf r = none) → behind p = "") ∧
    ∀ i ∈ f.instrs, ∀ r, .reg r ∈ i.operands → ∃! p, f.FirstAt p r := by
  -- in an empty table no register has a type
  have huntyped : (⟨f.instrs, ∅⟩ : Routine).suffixAt = fun _ => "" :=
    funext fun p => suffixAt_eq_empty fun r _ => Std.ExtTreeMap.getElem?_empty
  refine ⟨?_, f.textWith_nothing, ⟨f.suffixAt, f.print_eq_textWith, ?_, ?_⟩, ?_⟩
  · rw [print_eq_textWith, huntyped]
    exact textWith_nothing ⟨f.instrs, ∅⟩
  · exact fun p r ty hp hty => suffixAt_of_firstAt hp hty
  · exact fun p h => suffixAt_eq_empty h
  · exact fun i hi r hr => existsUnique_firstAt hi hr

/-- A register that is used twice has its type behind the first use, and one of two has no type. -/
theorem print_spelling_store :
    ∃ f : Routine, f.print = "%0:s32 = G_CONSTANT 5\nG_STORE %0, %1 :: uniform\n" ∧
      (⟨f.instrs, ∅⟩ : Routine).print = "%0 = G_CONSTANT 5\nG_STORE %0, %1 :: uniform\n" ∧
      ∃! p, f.FirstAt p ⟨0⟩ := by
  let store : Instr := ⟨.store, [.reg ⟨0⟩, .reg ⟨1⟩], 0, [.uniform], by decide⟩
  let f : Routine :=
    ⟨[⟨.constant, [.reg ⟨0⟩, .imm 5], 1, [], by decide⟩, store],
      (∅ : TypeTable).insert ⟨0⟩ (.scalar 32)⟩
  obtain ⟨huntyped, _, _, hunique⟩ := print_spelling f
  refine ⟨f, by decide +kernel, huntyped.trans (by decide +kernel), ?_⟩
  have hstore : store ∈ f.instrs := List.mem_cons_of_mem _ List.mem_cons_self
  exact hunique store hstore ⟨0⟩ List.mem_cons_self

end Routine

end Lowering
