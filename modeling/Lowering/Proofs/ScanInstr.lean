import Lowering.Proofs.ScanLine

/-!
# Lowering — scanning an instruction

The scan of an instruction follows the reader of a line, operand by operand. On the way every
contract of the instruction side is kept: what is negated is no least immediate
(`Reader.negated_hexadecimal`), no more operands are marked as definitions than there are
(`Scan.withDefs_append_left`), and an operand is asked for only if it is there
(`Scan.operandAt_of_lt`).
-/

namespace Lowering.Scan

open Text
open Reader (signText)

variable {α β : Type} {text s : List Char} {f : Routine} {q : Spot}

/-- What a scan does at one place is all that counts there. -/
theorem FollowsAt.congr {x x' : Scan α} {y : Reader α} (hx : x (q.place f) = x' (q.place f))
    (h : FollowsAt x' y text s q f) : FollowsAt x y text s q f := by
  cases h with
  | refuses cause hcause hscan hread => exact .refuses cause hcause (hx.trans hscan) hread
  | answers a q' types hon hq hscan hread => exact .answers a q' types hon hq (hx.trans hscan) hread

/-! ## Registers

A type behind a register is the one place where the reader looks at two words before it takes one of
them. None of them is taken by looking, so the scan is still where it was. -/

/-- A type is declared by both or refused by both; the table is the same for both. Neither moves the
cursor, so the place of the refusal is the one where the scan is. -/
theorem declare_follows (r : Reg) (ty : RegType) :
    Follows text (declare r ty) (Reader.declare r ty) := by
  intro s q f h
  cases hdecl : f.types.declare? r ty with
  | none =>
    -- a conflict concerns the table only, so both find it at the same place
    refine .refuses (.conflictingType ty r) (fun _ => nofun) ?_ ?_
    · simp only [declare, Spot.place, place, Routine.declare?, hdecl]
      rfl
    · simp only [Reader.declare, Spot.cursor, hdecl]
  | some types =>
    refine .answers () q types h (.refl q) ?_ ?_
    · simp only [declare, Spot.place, place, Routine.declare?, hdecl]
      rfl
    · simp only [Reader.declare, Spot.cursor, hdecl]

/-- The type of a register is scanned as it is read, whether it is there or not. -/
theorem typeSuffix_follows (r : Reg) :
    Follows text (typeSuffix text r) (Reader.typeSuffix r) := by
  intro s q f h
  obtain ⟨hone, hone'⟩ := current_is (f := f) (c := ':') h (by decide)
  have hdouble : Plain "::" := by decide
  obtain ⟨htwo, htwo'⟩ := looksAt_at (f := f) hdouble h
  -- two looks and no move: what follows is decided on `q.left` alone
  refine .bind_looks h (current_at h) hone' (.bind_looks h htwo htwo' ?_)
  rw [hone]
  by_cases hcolon : (q.left.head? == some ':' && !("::".toList.isPrefixOf q.left)) = true
  · obtain ⟨left, hleft⟩ := List.head?_eq_some_iff.1 (beq_iff_eq.1 (Bool.and_eq_true_iff.1 hcolon).1)
    obtain ⟨hscan, hread⟩ := advance_at (f := f) h hleft
    have hon : (q.past [':'] left).On text s := h.past hleft
    rw [if_pos hcolon, if_pos hcolon]
    refine .bind_past h hleft hscan hread ?_
    refine identifier_follows.bind (fun name => ?_) f hon
    cases RegType.ofName? name with
    | none => exact .refuse fun _ => nofun
    | some ty => exact declare_follows r ty
  · rw [if_neg hcolon, if_neg hcolon]
    exact Follows.pure () f h

theorem reg_follows : Follows text (reg text) Reader.reg := by
  refine (expect_follows (by decide)).bind fun _ =>
    (takeRun_follows (by decide)).bind fun digits => ?_
  cases Text.decimal32? digits with
  | none => exact .refuse fun _ => nofun
  | some n => exact (typeSuffix_follows ⟨n⟩).bind fun _ => .pure _

/-! ## Immediates

The scan takes the literal as a slice of the text, sign and all, and looks at the slice afterwards;
the reader remembers the sign. The slice is between two places of the cursor, so it is good. -/

/-- A minus sign is passed over by the scan if the reader takes it. The reader answers with the
sign, while the scan keeps no note of it and finds it again in the slice of the whole literal. -/
theorem exists_sign (h : q.On text s) (f : Routine) :
    ∃ negative left, q.left = signText negative ++ left ∧
      sign text (q.place f) = .ok ((), (q.past (signText negative) left).place f) ∧
      Reader.sign (q.cursor s f.types) =
        .ok (negative, (q.past (signText negative) left).cursor s f.types) := by
  obtain ⟨hscan, hread⟩ := current_is (f := f) (c := '-') h (by decide)
  have hread : Reader.looksAt "-" (q.cursor s f.types) = _ := hread
  cases hminus : q.left.head? == some '-' with
  | true =>
    rw [hminus] at hscan hread
    obtain ⟨left, hleft⟩ := List.head?_eq_some_iff.1 (beq_iff_eq.1 hminus)
    obtain ⟨hadvance, hdrop⟩ := advance_at (f := f) h hleft
    refine ⟨true, left, hleft, ?_, ?_⟩
    · rw [sign, bind_of_ok (current_at h), hscan]
      exact hadvance
    · rw [Reader.sign, Reader.bind_apply, hread]
      simp only [if_true, Reader.bind_apply, hdrop]
      rfl
  | false =>
    rw [hminus] at hscan hread
    -- without a sign the cursor stays where it is
    have hplace : (q.past (signText false) q.left).place f = q.place f := by
      simp only [Spot.place, Spot.past, signText, Bool.false_eq_true, if_false, List.append_nil]
    refine ⟨false, q.left, rfl, ?_, ?_⟩
    · rw [sign, bind_of_ok (current_at h), hscan, hplace]
      rfl
    · rw [Reader.sign, Reader.bind_apply, hread]
      rfl

/-- The literal as a slice begins with a minus sign exactly if one was passed over. -/
theorem head?_literal (negative : Bool) {digits : List Char}
    (hdigits : ∀ c ∈ digits, c.isAlphanum = true) :
    ((signText negative ++ digits).head? == some '-') = negative := by
  cases negative with
  | true => rfl
  | false =>
    cases digits with
    | nil => rfl
    | cons c digits =>
      have hc : c ≠ '-' := fun heq => absurd (heq ▸ hdigits c List.mem_cons_self) (by decide)
      exact beq_eq_false_iff_ne.2 fun heq => hc (Option.some.inj heq)

/-- An immediate is scanned as it is read. What is negated is a hexadecimal numeral, which is never
the least immediate. -/
theorem immediate_follows : Follows text (immediate text) Reader.immediate := by
  intro s q f h
  obtain ⟨negative, left, hleft, hsign, hsign'⟩ := exists_sign h f
  let q₁ : Spot := q.past (signText negative) left
  have hon₁ : q₁.On text s := h.past hleft
  obtain ⟨digits, rest, hrun, hdigits, htake, htake'⟩ :=
    exists_run (p := Char.isAlphanum) (by decide) hon₁ f
  let q₂ : Spot := q₁.past digits rest
  have hon₂ : q₂.On text s := hon₁.past hrun
  -- the literal stands between the place before the sign and the place behind the digits
  -- the literal does not come in two slices, so both parts of it are put together here
  have hslice : slice text (byteSize q.before) (q₂.place f) =
      .ok (signText negative ++ digits, q₂.place f) := by
    have hwhole : q.left = (signText negative ++ digits) ++ rest := by
      rw [hleft, List.append_assoc]
      exact congrArg (signText negative ++ ·) hrun
    rw [show q₂ = _ from Spot.past_past q _ left digits rest]
    exact slice_at h hwhole
  have hstart : (get : Scan Place) (q.place f) = .ok (q.place f, q.place f) := rfl
  refine .congr (bind_of_ok hstart) (.bind_past h hleft hsign hsign' ?_)
  refine .bind_past hon₁ hrun htake htake' (.congr (bind_of_ok hslice) ?_)
  simp only [head?_literal negative hdigits]
  have hliteral : signText negative ++ digits = if negative then '-' :: digits else digits := by
    cases negative <;> rfl
  rw [hliteral]
  cases "0x".toList.isPrefixOf? digits with
  | none =>
    simp only
    generalize (Text.decimal? digits).bind _ = value
    cases value with
    | none => exact Follows.refuse (by simp) f hon₂
    | some v => exact Follows.pure v f hon₂
  | some hex =>
    simp only
    cases hvalue : (Text.hexadecimal? hex).bind fun n => Reader.immediate? n with
    | none => exact Follows.refuse (by simp) f hon₂
    | some v => exact Follows.ite (.keep (Reader.negated_hexadecimal hvalue)) (.pure v) f hon₂

/-- An operand is scanned as it is read: both look at the same character to find out what it is. -/
theorem operand_follows : Follows text (operand text) Reader.operand := by
  intro s q f h
  obtain ⟨q', hon, hq, hscan, hread, hhead⟩ := exists_skip h f
  have hpeek : Reader.peek (q'.cursor s f.types) =
      .ok ((q'.left ++ q'.behind s).head?, q'.cursor s f.types) := by
    rw [hhead]
    rfl
  refine .bind_answers h hon hq hscan hread (.bind_looks hon (current_at hon) hpeek ?_)
  cases hnext : (q'.left ++ q'.behind s).head? with
  | none => exact Follows.refuse (by simp) f hon
  | some c =>
    -- a register, a symbol or an immediate, by the first character
    simp only
    by_cases hpercent : c = '%'
    · rw [if_pos hpercent, if_pos hpercent]
      exact reg_follows.map _ f hon
    · rw [if_neg hpercent, if_neg hpercent]
      by_cases hat : c = '@'
      · rw [if_pos hat, if_pos hat]
        rw [hat] at hnext
        obtain ⟨left, hleft⟩ := Spot.left_eq_cons (fun _ => hon.head?_behind) (by decide) hnext
        obtain ⟨hadvance, hdrop⟩ := advance_at (f := f) hon hleft
        exact .bind_past hon hleft hadvance hdrop (identifier_follows.map _ f (hon.past hleft))
      · rw [if_neg hat, if_neg hat]
        exact Follows.ite (immediate_follows.map _) (.refuse (by simp)) f hon

/-! ## Instructions

From here on the scan is put together from parts that follow their readers, as the reader is. What
is left to show are the contracts, each where it is relied on. -/

/-- The accesses are scanned as they are read. Every one of them begins with a word, so the loop
moves on. -/
theorem accesses_follows :
    Follows text (loop text (access? text)) (Reader.many Reader.access?) := by
  refine loop_follows (by decide) (identifier_follows.bind fun word => ?_)
  cases Access.ofText? word with
  | none => exact .refuse fun _ => nofun
  | some a => exact .pure _

/-- An operand before the last one is there. -/
theorem operandAt_of_lt {i : Instr} {k : Nat} (h : k < i.numOperands) :
    i.operandAt k = .ok (i.operands.get ⟨k, h⟩) :=
  Instr.operandAt_eq_ok_iff.2 (List.getElem?_eq_getElem h)

/-- A slot is checked by both for a register. That there is an operand in it is known when it is
asked for. -/
theorem checkRegister_follows (i : Instr) (k : Nat) :
    Follows text (checkRegister i k) (Reader.checkRegister i k) := by
  unfold checkRegister Reader.checkRegister
  by_cases hk : i.numOperands ≤ k
  · rw [if_pos hk, if_pos hk]
    exact .refuse fun _ => nofun
  · rw [if_neg hk, if_neg hk]
    exact (Follows.keep (operandAt_of_lt (Nat.lt_of_not_le hk))).bind fun _ =>
      .ite (.pure ()) (.refuse fun _ => nofun)

/-- The shape is checked by both slot by slot. Induction on the slots. -/
theorem checkShape_follows (i : Instr) (n : Nat) (slots : List Nat) :
    Follows text (checkShape i n slots) (Reader.checkShape i n slots) := by
  refine .ite ?_ (.refuse fun _ => nofun)
  induction slots with
  | nil => exact .pure ()
  | cons k slots ih => exact (checkRegister_follows i k).bind fun _ => ih

/-- The check of an instruction depends on its opcode alone, and so is the same for both. -/
theorem checkMappable_follows (i : Instr) :
    Follows text (checkMappable i) (Reader.checkMappable i) := by
  unfold checkMappable Reader.checkMappable
  cases i.opcode with
  | constant => exact checkShape_follows i 1 [0]
  | load => exact checkShape_follows i 1 [0, 1]
  | store => exact checkShape_follows i 0 [0, 1]
  | _ => exact .pure ()

/-- Definitions are scanned as they are read, or found to be missing in the same way. -/
theorem defs_follows : Follows text (defs text) Reader.defs := by
  intro s q f h
  obtain ⟨q', hon, hq, hscan, hread, _⟩ := exists_skip h f
  obtain ⟨hpercent, hpercent'⟩ := current_is (f := f) (c := '%') hon (by decide)
  refine .bind_answers h hon hq hscan hread (.bind_looks hon (current_at hon) hpercent' ?_)
  rw [hpercent]
  exact Follows.ite ((commaList_follows reg_follows).bind fun _ =>
    (expect_follows (by decide)).bind fun _ => .pure _) (.pure []) f hon

theorem opcode_follows : Follows text (opcode text) Reader.opcode := by
  refine identifier_follows.bind fun name => ?_
  cases Opcode.ofName? name with
  | none => exact .refuse fun _ => nofun
  | some op => exact .pure op

theorem uses_follows : Follows text (uses text) Reader.uses :=
  atLineEnd_follows.bind fun _ => (looksAt_follows (by decide)).bind fun _ =>
    .ite (.pure []) (commaList_follows operand_follows)

/-- Definitions that come before the uses can be marked as such. -/
theorem withDefs_append_left (op : Opcode) (defs uses : List Operand) :
    ∃ i, (Instr.ofOperands op (defs ++ uses)).withDefs defs.length = .ok i := by
  have hle : defs.length ≤ (defs ++ uses).length := List.length_append ▸ Nat.le_add_right _ _
  exact ⟨_, dif_pos hle⟩

/-- An instruction is scanned as it is read, with all its contracts kept. -/
theorem instr_follows : Follows text (instr text) Reader.instr := by
  refine defs_follows.bind fun defs => opcode_follows.bind fun op => uses_follows.bind fun uses => ?_
  obtain ⟨i, hi⟩ := withDefs_append_left op defs uses
  exact (Follows.keep hi).bind fun _ => accesses_follows.bind fun _ =>
    (checkMappable_follows _).bind fun _ => .pure _

/-- On its line the scan of a statement does what its reader does, and keeps every contract. -/
theorem statement_follows : Follows text (statement text) Reader.statement :=
  instr_follows.bind fun _ => lineEnd_follows.bind fun _ => .pure _

end Lowering.Scan
