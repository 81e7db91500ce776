import Lowering.Proofs.WrittenLine

/-!
# Lowering — writing a routine and reading it back

A routine is read back from its written form exactly if it is well formed, and every text that is
read at all describes a well-formed routine (`Routine.parse_print`).

The types of a routine are written at the first occurrence of each register and declared where they
are read, so at every point of the text they are in two parts: what is declared already, and what is
still to be written. `TypeTable.Split` is that invariant of the simultaneous walk.
-/

namespace Lowering

open Text

/-! ## Types declared and types still to be written

The printer takes a type out of its table when it writes it, and the reader puts it into its own
when it reads it. Between two operands every type of the routine is in just one of the two
tables. -/

/-- Every type of the table is either declared already or still to be written. -/
def TypeTable.Split (all pending declared : TypeTable) : Prop :=
  ∀ r : Reg, (pending[r]? = none ∧ declared[r]? = all[r]?) ∨
    (pending[r]? = all[r]? ∧ declared[r]? = none)

namespace TypeTable

/-- In front of the text nothing is declared and everything is still to be written. -/
theorem Split.start (all : TypeTable) : Split all all ∅ :=
  fun _ => .inr ⟨rfl, Std.ExtTreeMap.getElem?_empty⟩

/-- Writing the type of a register and declaring it keeps the parts together: what is taken out of
the table of those to be written goes into the table of those that were read. -/
theorem Split.declare {all pending declared : TypeTable} (h : Split all pending declared) {r : Reg}
    {ty : RegType} (hty : pending[r]? = some ty) :
    declared.declare? r ty = some (declared.insert r ty) ∧
      Split all (pending.erase r) (declared.insert r ty) := by
  -- a type that is still to be written is not declared yet
  have hr : all[r]? = some ty ∧ declared[r]? = none := by
    rcases h r with ⟨hnone, _⟩ | ⟨hall, hdecl⟩
    · rw [hnone] at hty
      cases hty
    · exact ⟨hall ▸ hty, hdecl⟩
  constructor
  · unfold declare?
    rw [hr.2]
  · intro s
    rw [RegMap.getElem?_erase, RegMap.getElem?_insert]
    by_cases hs : r = s
    · rw [if_pos hs, if_pos hs, ← hs]
      exact .inl ⟨rfl, hr.1.symm⟩
    · rw [if_neg hs, if_neg hs]
      exact h s

end TypeTable

namespace Reader

open Routine TypeTable

variable {α : Type} {all pending types : TypeTable}

/-! ## Operands with their types

Each operand is one word. For a register the table decides whether a type stands behind it; in all
cases the word is read back, and the split holds behind it again. -/

theorem regText_plain (r : Reg) : Plain r.text.toList := by
  rw [toList_regText]
  have hdigits := plain_of_isNameChar fun c hc =>
    isNameChar_of_isDigit (Text.isDigit_of_mem_toDigits (n := r.index.toNat) hc)
  have hpercent : Plain ['%'] := by decide
  exact hpercent.append hdigits

/-- The first occurrence of a typed register is written with its type, which is then no longer to be
written. -/
theorem annotate_some {r : Reg} {ty : RegType} (h : pending[r]? = some ty) :
    annotate pending (.reg r) = (r.text ++ ":" ++ ty.text, pending.erase r) := by
  simp only [annotate, h]

theorem annotate_none {r : Reg} (h : pending[r]? = none) :
    annotate pending (.reg r) = (r.text, pending) := by
  simp only [annotate, h]

/-- A register is written with its type if that is still to be written, and read back so that the
two parts of the types stay together. -/
theorem annotate_reg (hsplit : Split all pending types) (r : Reg) :
    ∃ declared, Split all (annotate pending (.reg r)).2 declared ∧
      ReadsBack reg types (annotate pending (.reg r)).1.toList r declared ∧
      (Plain (annotate pending (.reg r)).1.toList ∧
        ∃ u, (annotate pending (.reg r)).1.toList = '%' :: u) := by
  cases hty : pending[r]? with
  | none =>
    rw [annotate_none hty]
    exact ⟨types, hsplit, reg_readsBack r types, regText_plain r, _, toList_regText r⟩
  | some ty =>
    obtain ⟨hdeclare, hsplit⟩ := hsplit.declare hty
    have htype : Plain ty.text.toList :=
      plain_of_isNameChar fun c => RegType.isNameChar_of_mem_text
    have hcolon : Plain ":".toList := by decide
    -- behind the number comes a colon, so the digits end there
    have htext : (r.text ++ ":" ++ ty.text).toList =
        '%' :: (Nat.toDigits 10 r.index.toNat ++ ':' :: ty.text.toList) := by
      simp [toList_regText]
    rw [annotate_some hty]
    refine ⟨_, hsplit, reg_typed_readsBack hdeclare, ?_, _, htext⟩
    rw [String.toList_append, String.toList_append]
    exact ((regText_plain r).append hcolon).append htype

/-- An integer is written without line feeds and comments. -/
theorem intText_plain (v : Int64) : Plain v.toInt.repr.toList := by
  have hdigits (n : Nat) : Plain (Nat.toDigits 10 n) :=
    plain_of_isNameChar fun c hc => isNameChar_of_isDigit (Text.isDigit_of_mem_toDigits hc)
  cases v.toInt with
  | ofNat n =>
    rw [Int.repr, Text.toList_repr]
    exact hdigits n
  | negSucc n =>
    have hminus : Plain "-".toList := by decide
    rw [Int.repr, String.toList_append, Text.toList_repr]
    exact hminus.append (hdigits (n + 1))

/-- Whatever the operand, it is written as one word, which is read back. -/
theorem annotate_operand (hsplit : Split all pending types) {op : Operand} (hform : op.WellFormed) :
    ∃ declared, Split all (annotate pending op).2 declared ∧
      ReadsBack operand types (annotate pending op).1.toList op declared ∧
      Plain (annotate pending op).1.toList ∧ Opens (annotate pending op).1.toList := by
  cases op with
  | reg r =>
    obtain ⟨declared, hsplit, hread, hplain, u, htext⟩ := annotate_reg hsplit r
    rw [htext] at hread hplain ⊢
    exact ⟨declared, hsplit, hread.operand_reg, hplain, ⟨'%', u, rfl, by decide⟩⟩
  | imm v =>
    refine ⟨types, hsplit, imm_readsBack v types, intText_plain v, ?_⟩
    obtain ⟨c, t, htext, hc⟩ := intText_eq_cons v
    refine ⟨c, t, htext, ?_⟩
    rcases hc with rfl | hc
    · decide
    · -- a numeral opens with a sign or with a digit, and neither is a colon or a percent sign
      refine ⟨isGap_of_isNameChar (isNameChar_of_isDigit hc), ?_, ?_⟩
      · rintro rfl
        exact absurd hc (by decide)
      · rintro rfl
        exact absurd hc (by decide)
  | symbol name =>
    have hchars : ∀ c ∈ name.toList, isNameChar c = true :=
      fun c hc => isNameChar_of_symbolChar (hform.2 c hc)
    have htext : (Operand.symbol name).text.toList = '@' :: name.toList := by simp [Operand.text]
    refine ⟨types, hsplit, symbol_readsBack hform types, ?_, ?_⟩
    · change Plain (Operand.symbol name).text.toList
      rw [htext]
      have hat : Plain ['@'] := by decide
      -- the characters of symbols are some of those of names
      exact hat.append (plain_of_isNameChar hchars)
    · change Opens (Operand.symbol name).text.toList
      rw [htext]
      exact ⟨'@', name.toList, rfl, by decide⟩

/-! ## Rows of operands with their types

Along a row the split is handed on from operand to operand. Definitions are read as registers and
uses as operands, so the row is stated for any reader and any good property of the texts. -/

/-- What holds of every single item of a row holds along the row. The two tables change from one
item to the next, and their split is the invariant that is handed along. -/
theorem annotateAll_row (item : Reader α) (f : α → Operand) (Good : List Char → Prop) {xs : List α}
    (hitem : ∀ x ∈ xs, ∀ pending types, Split all pending types →
      ∃ declared, Split all (annotate pending (f x)).2 declared ∧
        ReadsBack item types (annotate pending (f x)).1.toList x declared ∧
        Good (annotate pending (f x)).1.toList)
    (hsplit : Split all pending types) :
    ∃ declared, Split all (annotateAll pending (xs.map f)).2 declared ∧
      Row item types ((annotateAll pending (xs.map f)).1.map String.toList) xs declared ∧
      ∀ t ∈ (annotateAll pending (xs.map f)).1, Good t.toList := by
  -- the tables change along the row, so the induction is over both of them
  induction xs generalizing pending types with
  | nil => exact ⟨types, hsplit, .nil types, by simp [annotateAll]⟩
  | cons x xs ih =>
    obtain ⟨mid, hmid, hread, hgood⟩ := hitem x (by simp) pending types hsplit
    obtain ⟨declared, hdeclared, hrow, hgoods⟩ := ih (fun y hy => hitem y (by simp [hy])) hmid
    refine ⟨declared, hdeclared, .cons hread hrow, ?_⟩
    intro t ht
    rcases List.mem_cons.1 ht with rfl | ht
    · exact hgood
    · exact hgoods t ht

/-- A row in two parts is written part by part, with the types that the first part leaves. -/
theorem annotateAll_append (pending : TypeTable) (a b : List Operand) :
    annotateAll pending (a ++ b) =
      ((annotateAll pending a).1 ++ (annotateAll (annotateAll pending a).2 b).1,
        (annotateAll (annotateAll pending a).2 b).2) := by
  induction a generalizing pending with
  | nil => rfl
  | cons op ops ih => simp only [List.cons_append, annotateAll, ih]

theorem length_annotateAll (pending : TypeTable) (ops : List Operand) :
    (annotateAll pending ops).1.length = ops.length := by
  induction ops generalizing pending with
  | nil => rfl
  | cons op ops ih => simp only [annotateAll, List.length_cons, ih]

/-- Operands that are all registers are a list of registers. -/
theorem exists_map_reg {ops : List Operand} (h : ∀ op ∈ ops, op.isReg = true) :
    ∃ rs : List Reg, rs.map .reg = ops := by
  induction ops with
  | nil => exact ⟨[], rfl⟩
  | cons op ops ih =>
    obtain ⟨rs, rfl⟩ := ih fun o ho => h o (by simp [ho])
    cases op with
    | reg r => exact ⟨r :: rs, rfl⟩
    | imm v => cases h (.imm v) (by simp)
    | symbol name => cases h (.symbol name) (by simp)

/-! ## Lines

An instruction is written in one line, so that a line is read at a time. -/

/-- An instruction written with its types is read back as it is, up to the line feed, and declares
the types that were written. -/
theorem instr_annotated {i : Instr} (hform : i.WellFormed) (hsplit : Split all pending types) :
    ∃ declared, Split all (annotateAll pending i.operands).2 declared ∧
      instr ⟨(i.render (annotateAll pending i.operands).1).toList ++ ['\n'], types⟩ =
        .ok (i, ⟨['\n'], declared⟩) ∧
      ∀ t ∈ (annotateAll pending i.operands).1, Plain t.toList ∧ Opens t.toList := by
  obtain ⟨rs, hrs⟩ := exists_map_reg hform.defs
  have hoperands : i.operands = i.defs ++ i.uses := (List.take_append_drop _ _).symm
  -- definitions are written as operands and read as registers, uses are read as operands
  obtain ⟨mid, hmid, hdefs, hdefTexts⟩ :=
    annotateAll_row reg .reg (fun t => Plain t ∧ ∃ u, t = '%' :: u)
      (fun r _ pending types h => annotate_reg h r) hsplit
  rw [hrs] at hmid hdefs hdefTexts
  obtain ⟨declared, hdeclared, huses, huseTexts⟩ :=
    annotateAll_row operand id (fun t => Plain t ∧ Opens t)
      (fun op hop pending types h =>
        annotate_operand h (hform.operands op (List.mem_of_mem_drop hop))) hmid
  rw [List.map_id] at hdeclared huses huseTexts
  have hlen : (annotateAll pending i.defs).1.length = i.numDefs := by
    rw [length_annotateAll]
    exact List.length_take_of_le i.numDefs_le
  rw [hoperands, annotateAll_append]
  refine ⟨declared, hdeclared, ?_, ?_⟩
  · exact instr_render hform hlen hrs hdefs huses (fun t ht => (hdefTexts t ht).2)
      fun t ht => (huseTexts t ht).2
  · intro t ht
    rcases List.mem_append.1 ht with ht | ht
    · obtain ⟨hplain, u, hu⟩ := hdefTexts t ht
      exact ⟨hplain, '%', u, hu, by decide⟩
    · exact huseTexts t ht

end Reader

namespace Routine

open Text TypeTable

variable {all pending : TypeTable}

/-- Behind an operand nothing is left to be written of its register, and the rest is as before. -/
theorem annotate_pending (pending : TypeTable) (op : Operand) (r : Reg) :
    (annotate pending op).2[r]? = if op = .reg r then none else pending[r]? := by
  cases op with
  | imm v => exact (if_neg nofun).symm
  | symbol name => exact (if_neg nofun).symm
  | reg s =>
    -- only a register takes its type out of the table, and no other type with it
    have hiff : Operand.reg s = .reg r ↔ s = r := ⟨Operand.reg.inj, congrArg _⟩
    cases hs : pending[s]? with
    | none =>
      rw [Reader.annotate_none hs]
      split
      · next h => exact hiff.1 h ▸ hs
      · rfl
    | some ty =>
      rw [Reader.annotate_some hs, RegMap.getElem?_erase]
      simp only [hiff]

/-- Behind a row nothing is left to be written of the registers in it. -/
theorem annotateAll_pending (pending : TypeTable) (ops : List Operand) (r : Reg) :
    (annotateAll pending ops).2[r]? = if .reg r ∈ ops then none else pending[r]? := by
  induction ops generalizing pending with
  | nil => exact (if_neg List.not_mem_nil).symm
  | cons op ops ih =>
    have hrest : (annotateAll pending (op :: ops)).2[r]? =
        if .reg r ∈ ops then none else (annotate pending op).2[r]? := ih _
    rw [hrest, annotate_pending]
    by_cases hmem : .reg r ∈ ops <;> by_cases hop : op = .reg r <;>
      simp [hmem, hop, eq_comm (a := Operand.reg r)]

/-- A well-formed instruction is written as one line and read back from it. -/
theorem readLine_annotated {f : Routine} {i : Instr} (hform : i.WellFormed)
    (hsplit : Split all pending f.types) :
    ∃ declared, Split all (annotateAll pending i.operands).2 declared ∧
      Clean (i.render (annotateAll pending i.operands).1).toList ∧
      f.readLine ((i.render (annotateAll pending i.operands).1).toList ++ ['\n']) =
        .ok ⟨f.instrs ++ [i], declared⟩ := by
  obtain ⟨declared, hdeclared, hinstr, htexts⟩ := Reader.instr_annotated hform hsplit
  obtain ⟨hclean, hread⟩ := readLine_render f i htexts
  rw [Reader.statement_of_instr hinstr] at hread
  exact ⟨declared, hdeclared, hclean, hread⟩

/-- The lines that are written of a row of instructions are read back as these instructions, and a
type that is left over belongs to a register that none of them uses. -/
theorem readLines_printFrom {f : Routine} {is : List Instr} {n : Nat}
    (hforms : ∀ i ∈ is, i.WellFormed) (hsplit : Split all pending f.types) :
    ∃ left declared, Split all left declared ∧
      (∀ r ty, left[r]? = some ty → pending[r]? = some ty ∧ ∀ i ∈ is, .reg r ∉ i.operands) ∧
      f.readLines n (lines (String.join (printFrom pending is)).toList) =
        .ok ⟨f.instrs ++ is, declared⟩ := by
  induction is generalizing f pending n with
  | nil => exact ⟨pending, f.types, hsplit, by simp, by rw [List.append_nil]; rfl⟩
  | cons i is ih =>
    obtain ⟨mid, hmid, hclean, hline⟩ := readLine_annotated (hforms i (by simp)) hsplit
    -- what the first line declares is declared when the later lines are read
    have hlater : ∀ j ∈ is, j.WellFormed := fun j hj => hforms j (by simp [hj])
    have hsplit' : Split all (annotateAll pending i.operands).2
        (Routine.mk (f.instrs ++ [i]) mid).types := hmid
    obtain ⟨left, declared, hleft, hunused, hlines⟩ := ih (n := n + 1) hlater hsplit'
    refine ⟨left, declared, hleft, ?_, ?_⟩
    · intro r ty hty
      obtain ⟨hafter, hrest⟩ := hunused r ty hty
      rw [annotateAll_pending] at hafter
      split at hafter
      · cases hafter
      · next hi => exact ⟨hafter, List.forall_mem_cons.2 ⟨hi, hrest⟩⟩
    · have htext : (String.join (printFrom pending (i :: is))).toList =
          (i.render (annotateAll pending i.operands).1).toList ++
            '\n' :: (String.join (printFrom (annotateAll pending i.operands).2 is)).toList := by
        simp [printFrom, String.join_cons]
      rw [htext, lines_line hclean, readLines, hline]
      simp only [hlines, List.append_assoc, List.singleton_append]

/-- The written form of a well-formed routine describes it. The lines are read back one by one,
beginning with no type read and all types to be written, and ending with none left. -/
theorem WellFormed.readBack {f : Routine} (hform : f.WellFormed) : parse f.print = .ok f := by
  have hstart : Split f.types f.types Routine.empty.types := Split.start f.types
  obtain ⟨left, declared, hsplit, hunused, hlines⟩ :=
    readLines_printFrom (n := 1) hform.instrs hstart
  have htypes : declared = f.types := by
    refine Std.ExtTreeMap.ext_getElem? fun r => ?_
    rcases hsplit r with ⟨_, hdeclared⟩ | ⟨hleft, hdeclared⟩
    · exact hdeclared
    · cases hty : f.types[r]? with
      | none => exact hdeclared
      | some ty =>
        -- the type was never written, so the register would have to be used nowhere
        obtain ⟨i, hi, hr⟩ := hform.types r ty hty
        -- a well-formed routine has types for its own registers only
        exact absurd hr ((hunused r ty (hleft.trans hty)).2 i hi)
  rw [htypes] at hlines
  exact hlines

/-- Every text that is accepted describes a well-formed routine, and exactly the well-formed
routines are read back from their written form. -/
theorem parse_print :
    (∀ text f, parse text = .ok f → f.WellFormed) ∧
      ∀ f : Routine, parse f.print = .ok f ↔ f.WellFormed :=
  ⟨fun _ _ => wellFormed_of_parse, fun _ => ⟨wellFormed_of_parse, WellFormed.readBack⟩⟩

/-- A type behind a use and an access behind the operands. -/
theorem parse_print_store :
    ∃ f, parse "%0:s32 = G_CONSTANT -5\nG_STORE %0, %1:p64 :: uniform ; spill\n" = .ok f ∧
      f.WellFormed ∧ parse f.print = .ok f := by
  let constant : Instr := ⟨.constant, [.reg ⟨0⟩, .imm (-5)], 1, [], by decide⟩
  let store : Instr := ⟨.store, [.reg ⟨0⟩, .reg ⟨1⟩], 0, [.uniform], by decide⟩
  let types : TypeTable := ((∅ : TypeTable).insert ⟨0⟩ (.scalar 32)).insert ⟨1⟩ (.pointer 64)
  have hparse : parse "%0:s32 = G_CONSTANT -5\nG_STORE %0, %1:p64 :: uniform ; spill\n" =
      .ok ⟨[constant, store], types⟩ := by decide +kernel
  have hform := parse_print.1 _ _ hparse
  exact ⟨_, hparse, hform, (parse_print.2 _).2 hform⟩

end Routine

end Lowering
