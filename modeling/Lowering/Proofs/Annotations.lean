import Lowering.Proofs.Demands
import Lowering.Proofs.RefusedRow
import Lowering.Proofs.RoundTrip

/-!
# Lowering — types behind any operands

The written form of a routine has the type of a register behind one of its occurrences. The type may
stand behind any of them, and behind more than one: what is read is what `declareAll` makes of the
types in the order in which they stand in the text (`Routine.parse_marked`).
-/

namespace Lowering

open Selection (Before)

/-! ## Texts with types behind some operands

The types are given by their places, so that texts which have them elsewhere than a printed routine,
or have some of them twice, are covered as well. -/

/-- An operand of a routine: the number of its instruction and its slot there. -/
abbrev Place := Nat × Nat

/-- The text of an operand with a type behind it, if it is a register and is given one. -/
def Operand.marked : Operand → Option RegType → String
  | .reg r, some ty => r.text ++ ":" ++ ty.text
  | op, _ => op.text

/-- The written form of an instruction with the given types behind its operands. -/
def Instr.marked (i : Instr) (marks : Nat → Option RegType) : String :=
  i.render (i.operands.zipIdx.map fun (op, k) => op.marked (marks k))

namespace Routine

/-- The written form of a routine with the given types behind its operands. -/
def marked (f : Routine) (marks : Place → Option RegType) : String :=
  String.join (f.instrs.zipIdx.map fun (i, j) => i.marked (fun k => marks (j, k)) ++ "\n")

/-- The register at a place, if one stands there. -/
def regAt? (f : Routine) (p : Place) : Option Reg :=
  f.instrs[p.1]?.bind fun i => i.operands[p.2]?.bind Operand.reg?

end Routine

/-! ## Types in the order in which they are read

The notes of a text are its types in the order in which a reader comes to them. What reading makes
of them is `declareAll`: the table it ends with, or the first note that contradicts one before
it. -/

/-- A type behind a register, with the place where it stands. The place says which of the types is
declared first, and which line a refusal is about. -/
structure Note where
  place : Place
  reg : Reg
  type : RegType

namespace Note

/-- The refusal of a type that is not the first for its register. -/
def refusal (n : Note) : Refusal :=
  .conflictingType n.type n.reg

/-- The type behind an operand, if it is a register and is given one. -/
def of? (j : Nat) (marks : Nat → Option RegType) (p : Operand × Nat) : Option Note :=
  p.1.reg?.bind fun r => (marks p.2).map fun ty => ⟨(j, p.2), r, ty⟩

end Note

/-- The types behind the operands of instruction number `j`. -/
def Instr.notes (i : Instr) (j : Nat) (marks : Nat → Option RegType) : List Note :=
  i.operands.zipIdx.filterMap (Note.of? j marks)

/-- The types behind the operands of a routine. -/
def Routine.notes (f : Routine) (marks : Place → Option RegType) : List Note :=
  f.instrs.zipIdx.flatMap fun (i, j) => i.notes j fun k => marks (j, k)

/-- The table after some declarations in a row, or the first of them that fails. -/
def declareAll : TypeTable → List Note → Except Note TypeTable
  | types, [] => .ok types
  | types, n :: ns =>
    match types.declare? n.reg n.type with
    | some declared => declareAll declared ns
    | none => .error n

/-- Declaring some types and then some more. Lines, and the operands of a line, are put together
with this. -/
theorem declareAll_append (types : TypeTable) (before after : List Note) :
    declareAll types (before ++ after) =
      match declareAll types before with
      | .ok declared => declareAll declared after
      | .error n => .error n := by
  induction before generalizing types with
  | nil => rfl
  | cons n before ih =>
    rw [List.cons_append, declareAll, declareAll]
    cases types.declare? n.reg n.type with
    | none => rfl
    | some declared => exact ih declared

namespace Reader

open Routine Text TypeTable

variable {α : Type} {types : TypeTable}

/-! ## Operands

An operand with a type behind it is read like one in the written form of some routine, so what is
known of those carries over. `Obeys` says at once what is read where the type can be declared and
how it is refused where it cannot. -/

/-- A text with some types behind its operands is read as a value while the types can be declared,
and refused at the first that cannot. -/
def Obeys (item : Reader α) (types : TypeTable) (text : List Char) (x : α) (notes : List Note) :
    Prop :=
  match declareAll types notes with
  | .ok declared => ReadsBack item types text x declared
  | .error n => Refuses item types text n.refusal

/-- An operand stands in some written form with the type behind it, or with none. -/
theorem exists_annotate (op : Operand) (mark : Option RegType) :
    ∃ pending, (annotate pending op).1 = op.marked mark := by
  cases op with
  | imm v => exact ⟨∅, rfl⟩
  | symbol name => exact ⟨∅, rfl⟩
  | reg r =>
    cases mark with
    | none => exact ⟨∅, by rw [annotate_none Std.ExtTreeMap.getElem?_empty]; rfl⟩
    | some ty =>
      have hget : ((∅ : TypeTable).insert r ty)[r]? = some ty := by
        rw [RegMap.getElem?_insert, if_pos rfl]
      exact ⟨_, by rw [annotate_some hget]; rfl⟩

/-- An operand with a type behind it has neither a blank nor the start of a comment in it, and
begins like an operand. -/
theorem marked_plain_opens {op : Operand} (hform : op.WellFormed) (mark : Option RegType) :
    Plain (op.marked mark).toList ∧ Opens (op.marked mark).toList := by
  obtain ⟨pending, hpending⟩ := exists_annotate op mark
  obtain ⟨_, _, _, hplain, hopens⟩ := annotate_operand (Split.start pending) hform
  exact hpending ▸ ⟨hplain, hopens⟩

theorem marked_percent (r : Reg) (mark : Option RegType) :
    ∃ u, ((Operand.reg r).marked mark).toList = '%' :: u := by
  obtain ⟨pending, hpending⟩ := exists_annotate (.reg r) mark
  obtain ⟨_, _, _, _, hpercent⟩ := annotate_reg (Split.start pending) r
  exact hpending ▸ hpercent

/-- A register with a type behind it declares the type, and one without declares nothing. The note
is empty in the second case, and so is what is declared. -/
theorem reg_obeys (j : Nat) (marks : Nat → Option RegType) (r : Reg) (k : Nat)
    (types : TypeTable) :
    Obeys reg types ((Operand.reg r).marked (marks k)).toList r
      (Note.of? j marks (.reg r, k)).toList := by
  unfold Obeys Note.of?
  cases hmark : marks k with
  | none => exact reg_readsBack r types
  | some ty =>
    -- there is one declaration to be made, and it decides
    change match declareAll types [⟨(j, k), r, ty⟩] with | .ok _ => _ | .error _ => _
    rw [declareAll]
    cases hdeclare : types.declare? r ty with
    | none => exact reg_typed_refuses hdeclare
    | some declared => exact reg_typed_readsBack hdeclare

/-- Every operand is read as it was written. Only a register has a type behind it, so the other two
cases declare nothing. -/
theorem operand_obeys (j : Nat) (marks : Nat → Option RegType) {op : Operand}
    (hform : op.WellFormed) (k : Nat) (types : TypeTable) :
    Obeys operand types (op.marked (marks k)).toList op (Note.of? j marks (op, k)).toList := by
  cases op with
  | imm v => exact imm_readsBack v types
  | symbol name => exact symbol_readsBack hform types
  | reg r =>
    have hreg := reg_obeys j marks r k types
    -- an operand that begins with a percent sign is read by the reader of registers
    obtain ⟨u, hu⟩ := marked_percent r (marks k)
    unfold Obeys at hreg ⊢
    rw [hu] at hreg ⊢
    cases hdeclare : declareAll types (Note.of? j marks (.reg r, k)).toList with
    | ok declared =>
      rw [hdeclare] at hreg
      exact ReadsBack.operand_reg hreg
    | error n =>
      rw [hdeclare] at hreg
      exact Refuses.operand_reg hreg

/-! ## Instructions

An operand obeys its note: it is read back with the note declared, or refused with it. Rows of
operands and whole instructions inherit this from their items. -/

/-- What holds of every single item of a row holds along the row. Induction on the row: the first
item that cannot be declared refuses the rest, and if there is none the tables are passed on. -/
theorem row_obeys {β : Type} (item : Reader α) (text : β → String) (value : β → α)
    (note : β → Option Note) (ps : List β)
    (hitem : ∀ p ∈ ps, ∀ types, Obeys item types (text p).toList (value p) (note p).toList)
    (types : TypeTable) :
    match declareAll types (ps.filterMap note) with
    | .ok declared =>
      Row item types ((ps.map text).map String.toList) (ps.map value) declared
    | .error n => RefusedRow item types ((ps.map text).map String.toList) n.refusal := by
  induction ps generalizing types with
  | nil => exact .nil types
  | cons p ps ih =>
    have hhead := hitem p List.mem_cons_self types
    unfold Obeys at hhead
    -- the notes of the row are that of its first item, if it has one, and those of the others
    rw [List.filterMap_eq_flatMap_toList, List.flatMap_cons, ← List.filterMap_eq_flatMap_toList,
      declareAll_append]
    cases hdeclare : declareAll types (note p).toList with
    | error n =>
      rw [hdeclare] at hhead
      exact .head hhead
    | ok mid =>
      rw [hdeclare] at hhead
      have htail := ih (fun q hq => hitem q (List.mem_cons_of_mem p hq)) mid
      simp only
      cases hlater : declareAll mid (ps.filterMap note) with
      | ok declared =>
        rw [hlater] at htail
        exact .cons hhead htail
      | error n =>
        rw [hlater] at htail
        exact .tail hhead htail

/-- An instruction is read back from the texts of its operands while the types behind them can be
declared, and refused at the first that cannot. -/
theorem instr_marked {i : Instr} (hform : i.WellFormed) (j : Nat) (marks : Nat → Option RegType)
    (types : TypeTable) :
    instr ⟨(i.marked marks).toList ++ ['\n'], types⟩ =
      match declareAll types (i.notes j marks) with
      | .ok declared => .ok (i, ⟨['\n'], declared⟩)
      | .error n => .error n.refusal := by
  obtain ⟨rs, hrs⟩ := exists_map_reg hform.defs
  have hlen : rs.length = i.numDefs := by
    rw [← List.length_map (f := Operand.reg), hrs]
    exact List.length_take_of_le i.numDefs_le
  -- definitions are written as operands and read as registers, uses are read as operands
  have hoperands : i.operands.zipIdx =
      rs.zipIdx.map (Prod.map .reg id) ++ i.uses.zipIdx i.numDefs := by
    have hsplit : i.operands = rs.map .reg ++ i.uses := by
      rw [hrs]
      exact (List.take_append_drop _ _).symm
    rw [hsplit, List.zipIdx_append, List.zipIdx_map, List.length_map, hlen, Nat.zero_add]
  let defText (p : Reg × Nat) : String := (Operand.reg p.1).marked (marks p.2)
  let useText (p : Operand × Nat) : String := p.1.marked (marks p.2)
  let defNote (p : Reg × Nat) : Option Note := Note.of? j marks (.reg p.1, p.2)
  have hmarked : i.marked marks =
      i.render (rs.zipIdx.map defText ++ (i.uses.zipIdx i.numDefs).map useText) := by
    rw [Instr.marked, hoperands, List.map_append, List.map_map]
    rfl
  have hnotes : i.notes j marks =
      rs.zipIdx.filterMap defNote ++ (i.uses.zipIdx i.numDefs).filterMap (Note.of? j marks) := by
    rw [Instr.notes, hoperands, List.filterMap_append, List.filterMap_map]
    rfl
  have hlength : (rs.zipIdx.map defText).length = i.numDefs := by
    rw [List.length_map, List.length_zipIdx, hlen]
  have hdefs := row_obeys reg defText Prod.fst defNote rs.zipIdx
    (fun p _ => reg_obeys j marks p.1 p.2) types
  have huses (mid : TypeTable) := row_obeys operand useText Prod.fst (Note.of? j marks)
    (i.uses.zipIdx i.numDefs) (fun p hp => operand_obeys j marks (hform.operands p.1
      (List.mem_of_mem_drop (List.fst_mem_of_mem_zipIdx hp))) p.2) mid
  rw [List.zipIdx_map_fst] at hdefs
  simp only [List.zipIdx_map_fst] at huses
  have hpercent : ∀ t ∈ rs.zipIdx.map defText, ∃ u, t.toList = '%' :: u := by
    intro t ht
    obtain ⟨p, _, rfl⟩ := List.mem_map.1 ht
    exact marked_percent p.1 _
  have hopens : ∀ t ∈ (i.uses.zipIdx i.numDefs).map useText, Opens t.toList := by
    intro t ht
    obtain ⟨p, hp, rfl⟩ := List.mem_map.1 ht
    exact (marked_plain_opens (hform.operands p.1
      (List.mem_of_mem_drop (List.fst_mem_of_mem_zipIdx hp))) _).2
  -- the definitions are declared first, and the uses only if all of them are
  rw [hmarked, hnotes, declareAll_append]
  cases hdeclare : declareAll types (rs.zipIdx.filterMap defNote) with
  | error n =>
    rw [hdeclare] at hdefs
    exact instr_refused_defs i hlength hdefs hpercent
  | ok mid =>
    rw [hdeclare] at hdefs
    have huses := huses mid
    simp only
    cases hlater : declareAll mid ((i.uses.zipIdx i.numDefs).filterMap (Note.of? j marks)) with
    | error n =>
      rw [hlater] at huses
      exact instr_refused_uses i hlength hdefs huses hpercent hopens
    | ok declared =>
      rw [hlater] at huses
      exact instr_render hform hlength hrs hdefs huses hpercent hopens

end Reader

namespace Routine

open Text Reader

/-! ## Routines -/

/-- The note that is refused is one of those that were to be declared. -/
theorem mem_of_declareAll {types : TypeTable} {ns : List Note} {n : Note}
    (h : declareAll types ns = .error n) : n ∈ ns := by
  induction ns generalizing types with
  | nil => cases h
  | cons m ns ih =>
    rw [declareAll] at h
    split at h
    · exact List.mem_cons_of_mem m (ih h)
    · cases h
      exact List.mem_cons_self

/-- The notes of an instruction carry its number, so a refusal names its line. -/
theorem place_of_mem_notes {i : Instr} {j : Nat} {marks : Nat → Option RegType} {n : Note}
    (h : n ∈ i.notes j marks) : n.place.1 = j := by
  obtain ⟨p, _, hn⟩ := List.mem_filterMap.1 h
  obtain ⟨r, _, hn⟩ := Option.bind_eq_some_iff.1 hn
  obtain ⟨ty, _, rfl⟩ := Option.map_eq_some_iff.1 hn
  rfl

/-- The line of a well-formed instruction is read as `declareAll` has it: the instruction is added
and the types behind its operands are declared in their order, or the line is refused with the first
of them that conflicts. The marks are arbitrary, so that this serves the written form of a routine
as well as any other choice of places. -/
theorem readLine_marked (f : Routine) {i : Instr} (hform : i.WellFormed) (j : Nat)
    (marks : Nat → Option RegType) :
    Clean (i.marked marks).toList ∧
      f.readLine ((i.marked marks).toList ++ ['\n']) =
        match declareAll f.types (i.notes j marks) with
        | .ok declared => .ok ⟨f.instrs ++ [i], declared⟩
        | .error n => .error n.refusal := by
  have htexts : ∀ t ∈ i.operands.zipIdx.map fun (op, k) => op.marked (marks k),
      Plain t.toList ∧ Opens t.toList := by
    intro t ht
    obtain ⟨p, hp, rfl⟩ := List.mem_map.1 ht
    exact marked_plain_opens (hform.operands p.1 (List.fst_mem_of_mem_zipIdx hp)) _
  obtain ⟨hclean, hread⟩ := readLine_render f i htexts
  refine ⟨hclean, hread.trans ?_⟩
  have hinstr := instr_marked hform j marks f.types
  unfold Instr.marked at hinstr
  cases hdeclare : declareAll f.types (i.notes j marks) with
  | ok declared =>
    rw [hdeclare] at hinstr
    rw [statement_of_instr hinstr]
  | error n =>
    rw [hdeclare] at hinstr
    -- a refused instruction refuses its line, for there is nothing to read behind it
    have hstatement : statement ⟨(i.render (i.operands.zipIdx.map fun (op, k) =>
        op.marked (marks k))).toList ++ ['\n'], f.types⟩ = .error n.refusal := bind_refused hinstr
    rw [hstatement]

/-- The lines of well-formed instructions, the first of which has number `j`. Induction on the
instructions: each line is read as `declareAll` has it, and the next one with the types that it
leaves. -/
theorem readLines_marked {f : Routine} {is : List Instr} (hforms : ∀ i ∈ is, i.WellFormed) (j : Nat)
    (marks : Place → Option RegType) :
    f.readLines (j + 1) (lines (String.join ((is.zipIdx j).map fun (i, j) =>
        i.marked (fun k => marks (j, k)) ++ "\n")).toList) =
      match declareAll f.types ((is.zipIdx j).flatMap fun (i, j) =>
          i.notes j fun k => marks (j, k)) with
      | .ok declared => .ok ⟨f.instrs ++ is, declared⟩
      | .error n => .error ⟨n.place.1 + 1, n.refusal⟩ := by
  induction is generalizing f j with
  | nil =>
    rw [List.append_nil]
    rfl
  | cons i is ih =>
    obtain ⟨hform, hlater⟩ := List.forall_mem_cons.1 hforms
    obtain ⟨hclean, hline⟩ := readLine_marked f hform j fun k => marks (j, k)
    have htext : (String.join (((i :: is).zipIdx j).map fun (i, j) =>
        i.marked (fun k => marks (j, k)) ++ "\n")).toList =
          (i.marked fun k => marks (j, k)).toList ++ '\n' ::
            (String.join ((is.zipIdx (j + 1)).map fun (i, j) =>
              i.marked (fun k => marks (j, k)) ++ "\n")).toList := by
      simp [String.join_cons]
    rw [htext, lines_line hclean, readLines, hline, List.zipIdx_cons, List.flatMap_cons,
      declareAll_append]
    cases hdeclare : declareAll f.types (i.notes j fun k => marks (j, k)) with
    | error n => simp only [place_of_mem_notes (mem_of_declareAll hdeclare)]
    | ok declared =>
      -- the later lines are read with one more instruction and the types declared so far
      have hrest := ih (f := ⟨f.instrs ++ [i], declared⟩) hlater (j + 1)
      simp only [hrest, List.append_assoc, List.singleton_append]

/-- The written form of well-formed instructions with types behind any of their operands is read as
the instructions with the types declared in the order in which they stand there, up to the first
that cannot be declared. -/
theorem parse_marked {f : Routine} (hforms : ∀ i ∈ f.instrs, i.WellFormed)
    (marks : Place → Option RegType) :
    parse (f.marked marks) =
      match declareAll ∅ (f.notes marks) with
      | .ok declared => .ok ⟨f.instrs, declared⟩
      | .error n => .error ⟨n.place.1 + 1, n.refusal⟩ :=
  readLines_marked (f := empty) hforms 0 marks

end Routine

end Lowering
