import Lowering.Proofs.ReadInstr

/-!
# Lowering — an instruction with a refused operand

Where the text of an operand is refused, whatever stands around it, so is the instruction that it
stands in, and for the same cause: the operands before it are read back, and nothing behind it is
looked at.

* `Refuses` — a text is refused, whatever stands around it.
* `RefusedRow` — the texts of a row are read back up to one that is refused.
* `instr_refused_defs`, `instr_refused_uses` — an instruction with such a row in it.
-/

namespace Lowering.Reader

variable {α : Type} {g rest : List Char} {types mid : TypeTable} {e : Refusal}

/-! ## Operands

The only thing that can be wrong with the operands of a printed instruction is that a type does not
agree with the one declared before, and this shows at the operand itself. -/

/-- The text is refused, whatever blanks are before it and whatever follows it that is no part of
it. -/
def Refuses (item : Reader α) (types : TypeTable) (text : List Char) (e : Refusal) : Prop :=
  ∀ g rest, Gap g → Stops rest → item ⟨g ++ (text ++ rest), types⟩ = .error e

/-- A register is refused behind which stands another type than it has. -/
theorem reg_typed_refuses {r : Reg} {ty : RegType} (hdeclare : types.declare? r ty = none) :
    Refuses reg types (r.text ++ ":" ++ ty.text).toList (.conflictingType ty r) := by
  intro g rest hg hrest
  rw [reg_typed_apply hg, bind_apply, typeSuffix_text hrest, hdeclare]

theorem Refuses.operand_reg {text : List Char} (h : Refuses reg types ('%' :: text) e) :
    Refuses operand types ('%' :: text) e := by
  intro g rest hg hrest
  have hreg : reg ⟨'%' :: (text ++ rest), types⟩ = .error e := h [] rest gap_nil hrest
  rw [List.cons_append, operand_apply hg (by decide), if_pos rfl, ← bind_pure_comp]
  exact bind_refused hreg

/-! ## Rows

A row is refused with its first text that is. The texts before it are read back, and leave the types
with which the refused one is read. -/

/-- A row of texts that are read back in turn up to one that is refused. -/
inductive RefusedRow (item : Reader α) : TypeTable → List (List Char) → Refusal → Prop where
  | head {types : TypeTable} {text : List Char} {texts : List (List Char)} {e : Refusal}
      (h : Refuses item types text e) : RefusedRow item types (text :: texts) e
  | tail {types mid : TypeTable} {text : List Char} {texts : List (List Char)} {x : α}
      {e : Refusal} (hhead : ReadsBack item types text x mid)
      (htail : RefusedRow item mid texts e) : RefusedRow item types (text :: texts) e

/-- The items after the first one. Induction on the row: a text that is read back makes the line
shorter, so the repetition goes on. -/
theorem many_refused {item : Reader α} {texts : List (List Char)}
    (hrow : RefusedRow item types texts e) (hstops : Stops rest) :
    many (commaStep item) ⟨commaTail texts ++ rest, types⟩ = .error e := by
  induction hrow with
  -- the item that is refused comes first, and the repetition ends with its error
  | @head types text texts e h =>
    have hitem := h [' '] _ gap_space (stops_commaTail texts hstops)
    rw [many, commaStep_text, ← bind_pure_comp, bind_apply, hitem]
  | @tail types mid text texts x e hhead _ ih =>
    have hitem := hhead [' '] _ gap_space (stops_commaTail texts hstops)
    have hshort : (commaTail texts ++ rest).length <
        (commaTail (text :: texts) ++ rest).length := by
      simp only [commaTail, List.flatMap_cons, List.length_append, List.length_cons]
      omega
    rw [many, commaStep_text, ← bind_pure_comp, bind_apply, hitem]
    simp only [pure_apply, hshort, if_true, ih]

/-- A row is refused with one of its texts, whether this is the first one or a later one. -/
theorem commaList_refused {item : Reader α} {texts : List (List Char)}
    (hrow : RefusedRow item types texts e) (hg : Gap g) (hstops : Stops rest) :
    commaList item ⟨g ++ (joined texts ++ rest), types⟩ = .error e := by
  change (item >>= fun first => many (commaStep item) >>= fun more => pure (first :: more)) _ = _
  cases hrow with
  | @head _ text texts _ h =>
    rw [joined, List.append_assoc]
    exact bind_refused (h g _ hg (stops_commaTail texts hstops))
  | @tail _ mid text texts x _ hhead htail =>
    rw [joined, List.append_assoc, bind_apply, hhead g _ hg (stops_commaTail texts hstops)]
    simp only [bind_apply, many_refused htail hstops]

/-! ## Instructions

The definitions come before the opcode and the uses behind it. Nothing that stands behind a refused
row is looked at, so nothing is asked of it. -/

/-- Definitions are refused with one of them. -/
theorem defs_refused {texts : List (List Char)} (hrow : RefusedRow reg types texts e)
    (hpercent : ∀ t ∈ texts, ∃ u, t = '%' :: u) :
    defs ⟨defsText texts ++ rest, types⟩ = .error e := by
  -- what comes behind the definitions begins with a blank, which ends the last of them
  have hstops : Stops ([' ', '=', ' '] ++ rest) := by
    intro c hc
    cases hc
    decide
  have hlist := commaList_refused hrow gap_nil hstops
  obtain ⟨text, more, rfl⟩ : ∃ text more, texts = text :: more := by
    cases hrow <;> exact ⟨_, _, rfl⟩
  obtain ⟨u, rfl⟩ := hpercent text List.mem_cons_self
  rw [List.nil_append, ← List.append_assoc] at hlist
  exact (defs_percent _).trans (bind_refused hlist)

theorem uses_refused {texts : List (List Char)} (as : List Access)
    (hrow : RefusedRow operand types texts e) (hopens : ∀ t ∈ texts, Opens t) :
    uses ⟨usesText as texts, types⟩ = .error e := by
  have hlist := commaList_refused hrow gap_nil (stops_lineTail as)
  obtain ⟨text, more, rfl⟩ : ∃ text more, texts = text :: more := by
    cases hrow <;> exact ⟨_, _, rfl⟩
  have hjoined : Opens (joined (text :: more) ++ (lineGap as ++ lineTail as)) :=
    ((hopens text List.mem_cons_self).append (commaTail more)).append _
  exact (uses_opens hjoined).trans hlist

/-- An instruction is refused with a definition of it. -/
theorem instr_refused_defs (i : Instr) {defTexts useTexts : List String}
    (hlen : defTexts.length = i.numDefs)
    (hdefs : RefusedRow reg types (defTexts.map String.toList) e)
    (hpercent : ∀ t ∈ defTexts, ∃ u, t.toList = '%' :: u) :
    instr ⟨(i.render (defTexts ++ useTexts)).toList ++ ['\n'], types⟩ = .error e := by
  have hrefused (rest : List Char) :
      defs ⟨defsText (defTexts.map String.toList) ++ rest, types⟩ = .error e :=
    defs_refused hdefs (by simpa using hpercent)
  rw [toList_render i hlen]
  exact bind_refused (hrefused _)

/-- An instruction is refused with a use of it, if its definitions are read back. -/
theorem instr_refused_uses (i : Instr) {defTexts useTexts : List String} {rs : List Reg}
    (hlen : defTexts.length = i.numDefs)
    (hdefs : Row reg types (defTexts.map String.toList) rs mid)
    (huses : RefusedRow operand mid (useTexts.map String.toList) e)
    (hpercent : ∀ t ∈ defTexts, ∃ u, t.toList = '%' :: u)
    (hopens : ∀ t ∈ useTexts, Opens t.toList) :
    instr ⟨(i.render (defTexts ++ useTexts)).toList ++ ['\n'], types⟩ = .error e := by
  obtain ⟨m, hdefsRead, hopcodeRead⟩ := defs_opcode_text i.opcode i.accesses hdefs
    (by simpa using hpercent)
  -- the definitions and the opcode are read as in a line that is accepted
  have hrefused := uses_refused i.accesses huses (by simpa using hopens)
  rw [toList_render i hlen]
  unfold instr
  rw [bind_apply, hdefsRead]
  simp only [bind_apply, hopcodeRead, hrefused]

end Lowering.Reader
