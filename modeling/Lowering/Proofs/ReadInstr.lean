import Lowering.Proofs.ReadBack

/-!
# Lowering — reading back an instruction

The second half of the way from tokens to a line. An instruction is written as a row of definitions,
the opcode, a row of uses and a word for each access; each of these parts is read back and leaves
the cursor where the next one starts.

* `Row` — the texts of a row are read back one after the other, and the type table passes through.
* `commaList_row`, `repeats_accesses` — a row with commas between its items, and the accesses.
* `instr_render` — the whole instruction.
-/

namespace Lowering.Reader

variable {α : Type} {g rest : List Char} {types mid declared : TypeTable}

/-! ## Rows

Definitions and uses are written in the same way, with a comma and a blank before every item but the
first. A row carries the type table along: each item is read with the types that those before it
have declared, which is why a row relates two tables and not just two lists. -/

/-- A row of texts that are read back in turn, each with the types that the one before it left. -/
inductive Row (item : Reader α) : TypeTable → List (List Char) → List α → TypeTable → Prop where
  | nil (types : TypeTable) : Row item types [] [] types
  | cons {types mid declared : TypeTable} {text : List Char} {texts : List (List Char)} {x : α}
      {xs : List α} (hhead : ReadsBack item types text x mid)
      (htail : Row item mid texts xs declared) :
      Row item types (text :: texts) (x :: xs) declared

/-- What is written of a row after its first item. -/
def commaTail (texts : List (List Char)) : List Char :=
  texts.flatMap fun text => [',', ' '] ++ text

/-- A row as it is written. -/
def joined : List (List Char) → List Char
  | [] => []
  | text :: texts => text ++ commaTail texts

/-- Texts put together with a comma and a blank between them are a row. -/
theorem toList_intercalate (texts : List String) :
    (", ".intercalate texts).toList = joined (texts.map String.toList) := by
  induction texts with
  | nil => rfl
  | cons t ts ih =>
    cases ts with
    | nil => simp [joined, commaTail]
    | cons u us =>
      rw [String.intercalate_cons_cons, String.toList_append, String.toList_append, ih]
      simp [joined, commaTail]

/-- Behind an item there is a comma, or the end of the row and what stands there. -/
theorem stops_commaTail (texts : List (List Char)) (hrest : Stops rest) :
    Stops (commaTail texts ++ rest) := by
  cases texts with
  | nil => exact hrest
  | cons t ts =>
    intro c hc
    have hcomma : ',' = c := by simpa [commaTail] using hc
    rw [← hcomma]
    decide

/-- A later item of a row has a comma and a blank before it. -/
theorem commaStep_text (item : Reader α) (text : List Char) (texts : List (List Char)) :
    commaStep item ⟨commaTail (text :: texts) ++ rest, types⟩ =
      (some <$> item) ⟨[' '] ++ (text ++ (commaTail texts ++ rest)), types⟩ := by
  -- the comma stands at once, and the blank behind it is left to the item
  have hsplit : commaTail (text :: texts) ++ rest =
      [] ++ ([','] ++ ([' '] ++ (text ++ (commaTail texts ++ rest)))) := by
    simp [commaTail]
  have htaken : accept "," ⟨commaTail (text :: texts) ++ rest, types⟩ =
      .ok (true, ⟨[' '] ++ (text ++ (commaTail texts ++ rest)), types⟩) := by
    rw [hsplit]
    exact accept_text types rfl gap_nil ⟨',', [], rfl, by decide⟩
  unfold commaStep
  rw [bind_apply, htaken]
  rfl

/-- The items after the first one, up to something that is no comma. Blanks may come before it,
which the look for the next comma passes over; so the cursor is left behind them. -/
theorem repeats_row {item : Reader α} {texts : List (List Char)} {xs : List α}
    (hrow : Row item types texts xs declared) (hg : Gap g) (hsolid : Solid rest)
    (hstops : Stops (g ++ rest)) (hcomma : ¬ [','] <+: rest) :
    Repeats (commaStep item) ⟨commaTail texts ++ (g ++ rest), types⟩ xs ⟨rest, declared⟩ := by
  -- along the row: the type table of each item is the one that the item before it left
  induction hrow with
  | nil types =>
    refine .stop ?_
    have hnone := accept_other types (show ",".toList = [','] from rfl) hg hsolid hcomma
    exact bind_eq_ok.2 ⟨false, ⟨rest, types⟩, hnone, rfl⟩
  | @cons types mid declared text texts x xs hhead _ ih =>
    have hitem := hhead [' '] _ gap_space (stops_commaTail texts hstops)
    refine .more (m := ⟨commaTail texts ++ (g ++ rest), mid⟩) ?_ ?_ ih
    · rw [commaStep_text]
      exact map_eq_ok.2 ⟨x, hitem, rfl⟩
    · simp only [commaTail, List.flatMap_cons, List.length_append, List.length_cons]
      omega

/-- A row is read back as a list, with its first item behind any blanks. The blanks at the end of
the row are passed over in the search for one more comma. -/
theorem commaList_row {item : Reader α} {texts : List (List Char)} {text lead : List Char} {x : α}
    {xs : List α} (hrow : Row item types (text :: texts) (x :: xs) declared) (hlead : Gap lead)
    (hg : Gap g) (hsolid : Solid rest) (hstops : Stops (g ++ rest))
    (hcomma : ¬ [','] <+: rest) :
    commaList item ⟨lead ++ (joined (text :: texts) ++ (g ++ rest)), types⟩ =
      .ok (x :: xs, ⟨rest, declared⟩) := by
  cases hrow with
  | cons hhead htail =>
    have hitem := hhead lead _ hlead (stops_commaTail texts hstops)
    rw [← List.append_assoc text] at hitem
    exact commaList_eq_ok.2 ⟨x, xs, _, rfl, hitem, repeats_row htail hg hsolid hstops hcomma⟩

/-! ## Accesses and the end of the line

Behind the operands stand the accesses and the line feed. Every reader that comes to these passes
over the blank before them, so it is kept apart from what the cursor stands at. -/

/-- The blank before the accesses, if there are any. -/
def lineGap : List Access → List Char
  | [] => []
  | _ :: _ => [' ']

/-- What is written after the operands and that blank: a word for each access, and the line feed. -/
def lineTail : List Access → List Char
  | [] => ['\n']
  | a :: as => [':', ':'] ++ ([' '] ++ (a.text.toList ++ (lineGap as ++ lineTail as)))

theorem gap_lineGap (as : List Access) : Gap (lineGap as) := by
  cases as with
  | nil => exact gap_nil
  | cons a as => exact gap_space

theorem solid_lineTail (as : List Access) : Solid (lineTail as) := by
  cases as with
  | nil => exact ⟨'\n', [], rfl, by decide⟩
  | cons a as => exact ⟨':', _, rfl, by decide⟩

theorem stops_lineTail (as : List Access) : Stops (lineGap as ++ lineTail as) := by
  intro c hc
  cases as with
  | nil =>
    cases hc
    decide
  | cons a as =>
    cases hc
    decide

/-- No comma stands behind the operands, so the last of them ends the row. -/
theorem comma_lineTail (as : List Access) : ¬ [','] <+: lineTail as := by
  intro h
  cases as with
  | nil => exact absurd (List.cons_prefix_cons.1 h).1 (by decide)
  | cons a as => exact absurd (List.cons_prefix_cons.1 h).1 (by decide)

/-- The accesses as they are printed, with the line feed behind them. -/
theorem toList_accesses (as : List Access) :
    (String.join (as.map fun a => " :: " ++ a.text)).toList ++ ['\n'] =
      lineGap as ++ lineTail as := by
  induction as with
  | nil => rfl
  | cons a as ih =>
    rw [List.map_cons, String.join_cons, String.toList_append, List.append_assoc, ih]
    simp [lineTail, lineGap]

/-- An access is a double colon and a word, which is the name of the access. -/
theorem access?_text {a : Access} (hg : Gap g) (hrest : Stops rest) :
    access? ⟨g ++ ([':', ':'] ++ ([' '] ++ (a.text.toList ++ rest))), types⟩ =
      .ok (some a, ⟨rest, types⟩) := by
  have hword : identifier ⟨[' '] ++ (a.text.toList ++ rest), types⟩ =
      .ok (a.text, ⟨rest, types⟩) := by
    have h := identifier_text types gap_space (show a.text.toList ≠ [] by cases a <;> decide)
      (List.all_eq_true.1 (by cases a <;> decide)) hrest
    rwa [String.ofList_toList] at h
  unfold access?
  have hcolons : "::".toList = [':', ':'] := rfl
  rw [bind_apply, accept_text types hcolons hg ⟨':', [':'], rfl, by decide⟩]
  simp only [if_true, bind_apply, hword]
  cases a <;> rfl

/-- The accesses are read up to the line feed. -/
theorem repeats_accesses (as : List Access) (types : TypeTable) (hg : Gap g) :
    Repeats access? ⟨g ++ lineTail as, types⟩ as ⟨['\n'], types⟩ := by
  induction as generalizing g with
  | nil =>
    -- a line feed is no double colon
    refine .stop ?_
    have hnone := accept_other types (show "::".toList = [':', ':'] from rfl) hg
      (solid_lineTail []) (fun h => absurd (List.cons_prefix_cons.1 h).1 (by decide))
    exact bind_eq_ok.2 ⟨false, ⟨['\n'], types⟩, hnone, rfl⟩
  | cons a as ih =>
    refine .more (access?_text hg (stops_lineTail as)) ?_ (ih (gap_lineGap as))
    simp only [lineTail, List.length_append, List.length_cons]
    omega

/-! ## The parts of an instruction

The definitions, the opcode and the uses. Definitions and uses may both be missing, and their
readers look at the next character to find out; in front of an opcode there is no percent sign, and
behind it either a blank or the end of the line. -/

/-- The first character of an operand: neither a blank, nor the end of the line, nor a colon. -/
def Opens (s : List Char) : Prop :=
  ∃ c t, s = c :: t ∧ isGap c = false ∧ c ≠ '\n' ∧ c ≠ ':'

theorem Opens.append {s : List Char} (h : Opens s) (t : List Char) : Opens (s ++ t) := by
  obtain ⟨c, u, rfl, hc⟩ := h
  exact ⟨c, u ++ t, rfl, hc⟩

/-- Without a percent sign there are no definitions, and nothing is taken. -/
theorem defs_none (hsolid : Solid rest) (hpercent : ¬ ['%'] <+: rest) :
    defs ⟨rest, types⟩ = .ok ([], ⟨rest, types⟩) := by
  have hlook : "%".toList.isPrefixOf rest = false :=
    Bool.eq_false_iff.2 fun h => hpercent (List.isPrefixOf_iff_prefix.1 h)
  have hskip : rest.dropWhile isGap = rest := dropWhile_gap gap_nil hsolid
  unfold defs
  rw [bind_apply, skipGap_apply]
  simp only [bind_apply, looksAt_apply, hskip, hlook]
  rfl

/-- With a percent sign there are definitions, up to an equals sign. -/
theorem defs_percent (u : List Char) :
    defs ⟨'%' :: u, types⟩ =
      (do
        let rs ← commaList reg
        expect "="
        return rs.map .reg : Reader (List Operand)) ⟨'%' :: u, types⟩ := by
  have hskip : ('%' :: u).dropWhile isGap = '%' :: u :=
    dropWhile_gap gap_nil ⟨'%', u, rfl, by decide⟩
  have hlook : "%".toList.isPrefixOf ('%' :: u) = true := by simp [List.isPrefixOf]
  unfold defs
  rw [bind_apply, skipGap_apply]
  simp only [hskip]
  rw [bind_apply, looksAt_apply]
  simp only [hlook, if_true]

/-- A row of definitions is read back up to the blank behind its equals sign. That blank stays, and
is passed over by the reader of the opcode. -/
theorem defs_row (rest : List Char) {text : List Char} {texts : List (List Char)} {r : Reg}
    {rs : List Reg} (hrow : Row reg types (('%' :: text) :: texts) (r :: rs) declared) :
    defs ⟨joined (('%' :: text) :: texts) ++ ([' '] ++ (['='] ++ ([' '] ++ rest))), types⟩ =
      .ok ((r :: rs).map .reg, ⟨[' '] ++ rest, declared⟩) := by
  have hsolid : Solid (['='] ++ ([' '] ++ rest)) := ⟨'=', _, rfl, by decide⟩
  have hstops : Stops ([' '] ++ (['='] ++ ([' '] ++ rest))) := by
    intro c hc
    cases hc
    decide
  -- no comma comes before the equals sign, so the row ends there
  have hlist := commaList_row hrow gap_nil gap_space hsolid hstops
    (fun h => absurd (List.cons_prefix_cons.1 h).1 (by decide))
  have hequals : expect "=" ⟨[] ++ (['='] ++ ([' '] ++ rest)), declared⟩ =
      .ok ((), ⟨[' '] ++ rest, declared⟩) :=
    expect_text declared rfl gap_nil ⟨'=', [], rfl, by decide⟩
  exact (defs_percent _).trans
    (bind_eq_ok.2 ⟨r :: rs, _, hlist, bind_eq_ok.2 ⟨(), _, hequals, rfl⟩⟩)

/-- An opcode is read back by its name. -/
theorem opcode_text (op : Opcode) (types : TypeTable) (hg : Gap g) (hrest : Stops rest) :
    opcode ⟨g ++ (op.name.toList ++ rest), types⟩ = .ok (op, ⟨rest, types⟩) := by
  have hname : identifier ⟨g ++ (op.name.toList ++ rest), types⟩ =
      .ok (op.name, ⟨rest, types⟩) := by
    have h := identifier_text types hg (show op.name.toList ≠ [] by cases op <;> decide)
      (List.all_eq_true.1 (by cases op <;> decide)) hrest
    rwa [String.ofList_toList] at h
  unfold opcode
  simp only [bind_apply, hname, Opcode.ofName?_name]
  rfl

/-- Where the line ends or accesses begin there are no uses, and otherwise there is at least one. -/
theorem uses_apply (hg : Gap g) (hsolid : Solid rest) :
    uses ⟨g ++ rest, types⟩ =
      if rest.head? = some '\n' ∨ [':', ':'] <+: rest then .ok ([], ⟨rest, types⟩)
      else commaList operand ⟨rest, types⟩ := by
  unfold uses
  rw [bind_apply, atLineEnd_apply]
  simp only [dropWhile_gap hg hsolid, bind_apply, looksAt_apply]
  obtain ⟨c, t, rfl, _⟩ := hsolid
  -- the two tests of the reader, said as one condition on the text
  have hstop : ((c :: t).head?.all (· == '\n') || "::".toList.isPrefixOf (c :: t)) = true ↔
      (c :: t).head? = some '\n' ∨ [':', ':'] <+: c :: t := by
    rw [Bool.or_eq_true, List.isPrefixOf_iff_prefix]
    simp
  by_cases h : (c :: t).head? = some '\n' ∨ [':', ':'] <+: c :: t
  · rw [if_pos h, if_pos (hstop.2 h)]
    rfl
  · rw [if_neg h, if_neg (fun hb => h (hstop.1 hb))]

theorem uses_none (as : List Access) :
    uses ⟨lineGap as ++ lineTail as, types⟩ = .ok ([], ⟨lineTail as, types⟩) := by
  rw [uses_apply (gap_lineGap as) (solid_lineTail as), if_pos]
  cases as with
  | nil => exact .inl rfl
  | cons a as => exact .inr (List.prefix_append _ _)

/-- Uses are read where an operand opens. -/
theorem uses_opens {text : List Char} (hopens : Opens text) :
    uses ⟨[' '] ++ text, types⟩ = commaList operand ⟨text, types⟩ := by
  obtain ⟨c, t, rfl, hc, hend, hcolon⟩ := hopens
  rw [uses_apply gap_space ⟨c, t, rfl, hc⟩, if_neg]
  rintro (h | h)
  · exact hend (Option.some.inj h)
  · exact hcolon (List.cons_prefix_cons.1 h).1.symm

/-- A row of uses is read back up to the accesses. -/
theorem uses_row {text : List Char} {texts : List (List Char)} {op : Operand} {ops : List Operand}
    {as : List Access} (hrow : Row operand types (text :: texts) (op :: ops) declared)
    (hopens : Opens text) :
    uses ⟨[' '] ++ (joined (text :: texts) ++ (lineGap as ++ lineTail as)), types⟩ =
      .ok (op :: ops, ⟨lineTail as, declared⟩) := by
  have hjoined : Opens (joined (text :: texts) ++ (lineGap as ++ lineTail as)) :=
    (hopens.append (commaTail texts)).append _
  rw [uses_opens hjoined]
  exact commaList_row hrow gap_nil (gap_lineGap as) (solid_lineTail as) (stops_lineTail as)
    (comma_lineTail as)

/-! ## The check of the shape

An instruction that is well-formed passes the check that the reader makes at the end, on whatever
cursor it is made: the check looks at the instruction and not at the text. -/

/-- A slot with a register in it passes the check of the slot. -/
theorem checkRegister_of_regAt {i : Instr} {k : Nat} (h : i.RegAt k) (c : Cursor) :
    checkRegister i k c = .ok ((), c) := by
  obtain ⟨r, hget⟩ := h
  have hlt : ¬ i.numOperands ≤ k := Nat.not_le.2 (List.getElem?_eq_some_iff.1 hget).1
  have hat : i.operandAt k = .ok (.reg r) := by
    unfold Instr.operandAt
    rw [hget]
  unfold checkRegister
  rw [if_neg hlt, hat]
  rfl

/-- The shape is checked slot by slot, behind the number of definitions. Induction on the slots. -/
theorem checkShape_of_regAt {i : Instr} {n : Nat} {slots : List Nat} (hn : i.numDefs = n)
    (hregs : ∀ k ∈ slots, i.RegAt k) (c : Cursor) : checkShape i n slots c = .ok ((), c) := by
  unfold checkShape
  rw [if_pos hn]
  induction slots with
  | nil => rfl
  | cons k slots ih =>
    have hk := checkRegister_of_regAt (hregs k (by simp)) c
    exact bind_eq_ok.2 ⟨(), c, hk, ih fun j hj => hregs j (by simp [hj])⟩

/-- The first operand of an instruction with definitions is a register. -/
theorem regAt_zero {i : Instr} (hform : i.WellFormed) (hn : i.numDefs = 1) : i.RegAt 0 := by
  have hle := i.numDefs_le
  cases hops : i.operands with
  | nil =>
    rw [hn, hops] at hle
    exact absurd hle (by simp)
  | cons op ops =>
    have hreg := hform.defs op (by simp [Instr.defs, hn, hops])
    cases op with
    | reg r => exact ⟨r, by simp [hops]⟩
    | imm v => cases hreg
    | symbol name => cases hreg

/-- Only three opcodes have a shape to be checked. A register that is defined stands in slot 0, so
what is left to know are the slots of the uses. -/
theorem checkMappable_of_wellFormed {i : Instr} (hform : i.WellFormed) (c : Cursor) :
    checkMappable i c = .ok ((), c) := by
  have hmap := hform.mappable
  unfold Instr.Mappable at hmap
  unfold checkMappable
  cases hop : i.opcode with
  | constant =>
    simp only [hop] at hmap
    exact checkShape_of_regAt hmap (by simpa using regAt_zero hform hmap) c
  | load =>
    simp only [hop] at hmap
    exact checkShape_of_regAt hmap.1 (by simpa using ⟨regAt_zero hform hmap.1, hmap.2⟩) c
  | store =>
    simp only [hop] at hmap
    exact checkShape_of_regAt hmap.1 (by simpa using hmap.2) c
  -- the other opcodes are not checked
  | _ => rfl

/-! ## The whole instruction

The text of an instruction falls into what its parts are read from, and the parts are read in turn.
What is read are definitions, uses and accesses on their own, put together in the end. -/

/-- What is written after the opcode. -/
def usesText (as : List Access) : List (List Char) → List Char
  | [] => lineGap as ++ lineTail as
  | text :: texts => [' '] ++ (joined (text :: texts) ++ (lineGap as ++ lineTail as))

/-- What is written before the opcode. -/
def defsText : List (List Char) → List Char
  | [] => []
  | text :: texts => joined (text :: texts) ++ [' ', '=', ' ']

/-- The printed line of an instruction is its definitions, the name of its opcode and its uses, and
its accesses are at the end of the uses. -/
theorem toList_render (i : Instr) {defs uses : List String} (hlen : defs.length = i.numDefs) :
    (i.render (defs ++ uses)).toList ++ ['\n'] =
      defsText (defs.map String.toList) ++
        (i.opcode.name.toList ++ usesText i.accesses (uses.map String.toList)) := by
  -- the text tells definitions from uses by their number
  have htake : (defs ++ uses).take i.numDefs = defs := by rw [← hlen, List.take_left]
  have hdrop : (defs ++ uses).drop i.numDefs = uses := by rw [← hlen, List.drop_left]
  have hdefs : (if defs.isEmpty then "" else ", ".intercalate defs ++ " = ").toList =
      defsText (defs.map String.toList) := by
    cases defs with
    | nil => rfl
    | cons t ts =>
      rw [if_neg (by simp), String.toList_append, toList_intercalate]
      rfl
  have huses : (if uses.isEmpty then "" else " " ++ ", ".intercalate uses).toList ++
      (lineGap i.accesses ++ lineTail i.accesses) =
        usesText i.accesses (uses.map String.toList) := by
    cases uses with
    | nil => rfl
    | cons t ts =>
      rw [if_neg (by simp), String.toList_append, toList_intercalate, List.append_assoc]
      rfl
  unfold Instr.render
  simp only [htake, hdrop, String.toList_append, List.append_assoc, hdefs, toList_accesses, huses]

theorem stops_usesText (as : List Access) (texts : List (List Char)) :
    Stops (usesText as texts) := by
  cases texts with
  | nil => exact stops_lineTail as
  | cons t ts =>
    intro c hc
    cases hc
    decide

/-- Definitions are read back whether there are any or not. They leave a blank behind if there are,
which the opcode passes over. -/
theorem defs_text {texts : List (List Char)} {rs : List Reg} (hrow : Row reg types texts rs mid)
    (hpercent : ∀ t ∈ texts, ∃ u, t = '%' :: u) (hsolid : Solid rest)
    (hrest : ¬ ['%'] <+: rest) :
    ∃ lead, Gap lead ∧
      defs ⟨defsText texts ++ rest, types⟩ = .ok (rs.map .reg, ⟨lead ++ rest, mid⟩) := by
  cases hrow with
  | nil types => exact ⟨[], gap_nil, defs_none hsolid hrest⟩
  | @cons _ _ _ text texts r rs hhead htail =>
    obtain ⟨u, rfl⟩ := hpercent text (by simp)
    refine ⟨[' '], gap_space, ?_⟩
    have hdefs := defs_row rest (.cons hhead htail)
    simpa only [defsText, List.append_assoc, List.cons_append, List.nil_append] using hdefs

theorem uses_text {texts : List (List Char)} {ops : List Operand} (as : List Access)
    (hrow : Row operand types texts ops declared) (hopens : ∀ t ∈ texts, Opens t) :
    uses ⟨usesText as texts, types⟩ = .ok (ops, ⟨lineTail as, declared⟩) := by
  cases hrow with
  | nil types => exact uses_none as
  | cons hhead htail => exact uses_row (.cons hhead htail) (hopens _ (by simp))

/-- An instruction is its operands, split where its definitions end, with its accesses put to it. -/
theorem withDefs_append (i : Instr) :
    ∃ j, (Instr.ofOperands i.opcode (i.defs ++ i.uses)).withDefs i.defs.length = .ok j ∧
      i.accesses.foldl Instr.withAccess j = i := by
  have hoperands : i.defs ++ i.uses = i.operands := List.take_append_drop _ _
  have hlen : i.defs.length = i.numDefs := List.length_take_of_le i.numDefs_le
  refine ⟨{ i with accesses := [] }, ?_, ?_⟩
  · unfold Instr.withDefs
    rw [hoperands, hlen]
    exact dif_pos i.numDefs_le
  · rw [foldl_withAccess]
    rfl

/-- The definitions and the opcode are read up to where the uses start. Without definitions the text
begins with the opcode, whose name is not taken for a register. -/
theorem defs_opcode_text {texts useTexts : List (List Char)} {rs : List Reg} (op : Opcode)
    (as : List Access) (hrow : Row reg types texts rs mid)
    (hpercent : ∀ t ∈ texts, ∃ u, t = '%' :: u) :
    ∃ m, defs ⟨defsText texts ++ (op.name.toList ++ usesText as useTexts), types⟩ =
        .ok (rs.map .reg, m) ∧
      opcode m = .ok (op, ⟨usesText as useTexts, mid⟩) := by
  -- no opcode begins with a blank or a percent sign, so none is taken for a definition
  obtain ⟨c, t, hname, hc, hne⟩ :
      ∃ c t, op.name.toList = c :: t ∧ isGap c = false ∧ c ≠ '%' := by
    cases op <;> exact ⟨_, _, rfl, by decide, by decide⟩
  have hsolid : Solid (op.name.toList ++ usesText as useTexts) := Solid.append ⟨c, t, hname, hc⟩ _
  obtain ⟨lead, hlead, hdefs⟩ := defs_text hrow hpercent hsolid (fun h => by
    rw [hname] at h
    exact hne (List.cons_prefix_cons.1 h).1.symm)
  exact ⟨_, hdefs, opcode_text op mid hlead (stops_usesText as useTexts)⟩

/-- An instruction is read back if the texts of its operands are. What the operands are written like
is left open here, so that their types can stand behind them or not. -/
theorem instr_render {i : Instr} (hform : i.WellFormed) {defTexts useTexts : List String}
    {rs : List Reg} (hlen : defTexts.length = i.numDefs) (hrs : rs.map Operand.reg = i.defs)
    (hdefs : Row reg types (defTexts.map String.toList) rs mid)
    (huses : Row operand mid (useTexts.map String.toList) i.uses declared)
    (hpercent : ∀ t ∈ defTexts, ∃ u, t.toList = '%' :: u)
    (hopens : ∀ t ∈ useTexts, Opens t.toList) :
    instr ⟨(i.render (defTexts ++ useTexts)).toList ++ ['\n'], types⟩ =
      .ok (i, ⟨['\n'], declared⟩) := by
  -- the parts are read in turn, each from where the one before it left the cursor
  obtain ⟨m, hdefsRead, hopcodeRead⟩ := defs_opcode_text i.opcode i.accesses hdefs
    (by simpa using hpercent)
  have husesRead := uses_text i.accesses huses (by simpa using hopens)
  have haccessesRead := repeats_accesses i.accesses declared gap_nil
  obtain ⟨j, hj, hfold⟩ := withDefs_append i
  rw [toList_render i hlen]
  rw [hrs] at hdefsRead
  have hmark : keep ((Instr.ofOperands i.opcode (i.defs ++ i.uses)).withDefs i.defs.length)
      ⟨lineTail i.accesses, declared⟩ = .ok (j, ⟨lineTail i.accesses, declared⟩) :=
    keep_eq_ok.2 ⟨hj, rfl⟩
  have hmany : many access? ⟨lineTail i.accesses, declared⟩ =
      .ok (i.accesses, ⟨['\n'], declared⟩) :=
    many_eq_ok_iff.2 haccessesRead
  unfold instr
  rw [bind_apply, hdefsRead]
  simp only [bind_apply, hopcodeRead, husesRead, hmark, hmany, hfold,
    checkMappable_of_wellFormed hform]
  rfl

end Lowering.Reader
