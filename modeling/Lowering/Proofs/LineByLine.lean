import Lowering.Proofs.TextLines

/-!
# Lowering — reading line by line

A text is read line by line, and nothing but the table of types goes from one line to the next. So the
lines of an accepted text hold its instructions (`LinesHold`): none for a line that is blank once its
comment is removed, and one for every other. A refused text has a first line that is refused after
these, and the error is about that line. What comes behind does not matter.

The same is found by one cursor that goes along the whole text and counts the line feeds that it
passes (`Routine.readOn`), since a reader that is on a line stays there.
-/

namespace Lowering

open Text

/-! ## One line

A line is vacant, and then the reader finds nothing, or it says something, and then the reader comes
to a statement behind the first blanks. -/

namespace Reader

variable {types : TypeTable} {body line : List Char} {eol : Option Char}

/-- A vacant line holds nothing, and only its end is left of it. -/
theorem line_of_vacant (h : IsLine body eol line) (hvacant : Vacant line) :
    Reader.line ⟨content line, types⟩ = .ok (none, ⟨eol.toList, types⟩) := by
  have hsaid : said body = [] := h.vacant_iff.1 hvacant
  rw [h.content_eq, hsaid, List.nil_append]
  have hskip : eol.toList.dropWhile isGap = eol.toList := by
    obtain rfl | rfl := h.ends.eq_or <;> rfl
  rw [line_blank] <;> simp only [hskip]
  rw [Option.head?_toList]
  exact h.ends

/-- A line that says something is read as a statement, from behind its first blanks on. -/
theorem line_of_not_vacant (h : IsLine body eol line) (hvacant : ¬ Vacant line) :
    Reader.line ⟨content line, types⟩ =
      (some <$> statement) ⟨(said body).dropWhile isGap ++ eol.toList, types⟩ := by
  have hsaid : (said body).dropWhile isGap ≠ [] := by
    obtain ⟨c, left, hleft, _⟩ := h.exists_said_cons hvacant
    exact hleft ▸ List.cons_ne_nil c left
  have hhead : eol.toList.head? = eol := Option.head?_toList
  rw [h.content_eq, line_statement]
  · rw [dropWhile_line h.ends hhead isGap_feed]
  · rwa [endsLine_iff (not_mem_said h.not_mem) h.ends hhead]

end Reader

namespace Routine

variable {f g : Routine} {n : Nat} {line : List Char} {ls : List (List Char)}

/-- A line that holds nothing changes nothing. -/
theorem readLine_of_vacant {body : List Char} {eol : Option Char} (h : IsLine body eol line)
    (hvacant : Vacant line) : f.readLine line = .ok f :=
  readLine_eq_ok_iff.2 ⟨none, _, Reader.line_of_vacant h hvacant, (List.append_nil _).symm⟩

/-- Reading some lines and then some more: these are read if the first are accepted. -/
theorem readLines_append (before after : List (List Char)) :
    f.readLines n (before ++ after) =
      match f.readLines n before with
      | .ok g => g.readLines (n + before.length) after
      | .error e => .error e := by
  induction before generalizing f n with
  | nil => rfl
  | cons line before ih =>
    -- the lines behind the first are numbered from one more on
    rw [List.cons_append, readLines, readLines]
    cases f.readLine line with
    | error cause => rfl
    | ok g =>
      simp only [ih, List.length_cons, Nat.add_assoc, Nat.add_comm 1]

end Routine

/-! ## What the lines hold

The relation of a text and what is read from it, without a routine to collect it in. It knows
nothing of line numbers either, so it says of any rows of lines what they hold, wherever they stand
in a text. -/

/-- Read one after the other from a table of types on, the lines hold the instructions and lead to
another table: a line that is blank once its comment is removed holds none, and every other line holds
one, with the types that the lines before it have declared. -/
inductive LinesHold : TypeTable → List (List Char) → List Instr → TypeTable → Prop
  | nil {types : TypeTable} : LinesHold types [] [] types
  | vacant {types types' : TypeTable} {line : List Char} {ls : List (List Char)} {is : List Instr}
      (hline : Vacant line) (hrest : LinesHold types ls is types') :
      LinesHold types (line :: ls) is types'
  | instr {types mid types' : TypeTable} {line rest : List Char} {ls : List (List Char)} {i : Instr}
      {is : List Instr} (hline : ¬ Vacant line)
      (hread : Reader.line ⟨content line, types⟩ = .ok (some i, ⟨rest, mid⟩))
      (hrest : LinesHold mid ls is types') : LinesHold types (line :: ls) (i :: is) types'

namespace Routine

variable {f g : Routine} {n : Nat} {line : List Char} {ls : List (List Char)}

theorem linesHold_nil {types types' : TypeTable} {is : List Instr}
    (h : LinesHold types [] is types') : is = [] ∧ types' = types := by
  cases h
  exact ⟨rfl, rfl⟩

/-- Lines that hold instructions begin with a line that is accepted. -/
theorem readLine_of_linesHold {body : List Char} {eol : Option Char} (hline : IsLine body eol line)
    {is : List Instr} {types' : TypeTable} (h : LinesHold f.types (line :: ls) is types') :
    ∃ g is', f.readLine line = .ok g ∧ LinesHold g.types ls is' types' ∧
      g.instrs ++ is' = f.instrs ++ is := by
  cases h with
  | vacant hvacant hrest =>
    exact ⟨f, is, readLine_of_vacant hline hvacant, hrest, rfl⟩
  | @instr _ mid _ _ rest _ i is _ hread hrest =>
    exact ⟨⟨f.instrs ++ [i], mid⟩, is, readLine_eq_ok_iff.2 ⟨some i, rest, hread, rfl⟩, hrest,
      List.append_assoc _ _ _⟩

/-- An accepted line holds an instruction, or it is vacant and holds none. This is the step by which
`LinesHold` is built up from the front, one line before those that are known to hold something. -/
theorem linesHold_of_readLine {body : List Char} {eol : Option Char} (hline : IsLine body eol line)
    {is : List Instr} {types' : TypeTable} (hread : f.readLine line = .ok g)
    (hrest : LinesHold g.types ls is types') :
    ∃ is', LinesHold f.types (line :: ls) is' types' ∧ g.instrs ++ is = f.instrs ++ is' := by
  obtain ⟨i?, rest, hread, hg⟩ := readLine_eq_ok_iff.1 hread
  rw [hg, List.append_assoc]
  refine ⟨i?.toList ++ is, ?_, rfl⟩
  by_cases hvacant : Vacant line
  · -- nothing is read from a vacant line, so the types are as before
    rw [Reader.line_of_vacant hline hvacant] at hread
    obtain ⟨rfl, hcursor⟩ := Prod.mk.inj (Except.ok.inj hread)
    have htypes : f.types = g.types := congrArg Cursor.types hcursor
    exact .vacant hvacant (htypes ▸ hrest)
  · have hstatement := hread
    rw [Reader.line_of_not_vacant hline hvacant] at hstatement
    obtain ⟨i, _, rfl⟩ := Reader.map_eq_ok.1 hstatement
    exact .instr hvacant hread hrest

/-- Lines are accepted if they hold instructions, and these are what is added. The table of types at
the end is the one that the lines leave, which is what makes the statement carry from one line to
the next. -/
theorem readLines_eq_ok_iff (hlines : ∀ line ∈ ls, ∃ body eol, IsLine body eol line) :
    f.readLines n ls = .ok g ↔
      ∃ is, LinesHold f.types ls is g.types ∧ g.instrs = f.instrs ++ is := by
  induction ls generalizing f n with
  | nil =>
    rw [readLines]
    constructor
    · intro h
      cases h
      exact ⟨[], .nil, (List.append_nil _).symm⟩
    · rintro ⟨is, hhold, hinstrs⟩
      -- nothing is added, so the two routines are the same in both fields
      obtain ⟨rfl, htypes⟩ := linesHold_nil hhold
      rw [List.append_nil] at hinstrs
      cases f
      cases g
      cases hinstrs
      cases htypes
      rfl
  | cons line ls ih =>
    obtain ⟨⟨body, eol, hline⟩, hrest⟩ := List.forall_mem_cons.1 hlines
    rw [readLines]
    constructor
    · intro h
      cases hread : f.readLine line with
      | error cause =>
        rw [hread] at h
        cases h
      | ok m =>
        rw [hread] at h
        obtain ⟨is, hhold, hinstrs⟩ := (ih hrest).1 h
        -- the instruction on the first line, if there is one, comes before those of the rest
        obtain ⟨is', hhold', happend⟩ := linesHold_of_readLine hline hread hhold
        exact ⟨is', hhold', hinstrs.trans happend⟩
    · rintro ⟨is, hhold, hinstrs⟩
      obtain ⟨m, is', hread, hhold', happend⟩ := readLine_of_linesHold hline hhold
      rw [hread]
      exact (ih hrest).2 ⟨is', hhold', hinstrs.trans happend.symm⟩

/-- Lines are refused at the first line that cannot be read behind those before it. What comes
behind this line has no part in it, and its number is counted from the number of the first line. -/
theorem readLines_eq_error_iff (hlines : ∀ line ∈ ls, ∃ body eol, IsLine body eol line)
    {e : ParseError} :
    f.readLines n ls = .error e ↔
      ∃ before line after is types, ls = before ++ line :: after ∧
        LinesHold f.types before is types ∧
        Reader.line ⟨content line, types⟩ = .error e.cause ∧ e.line = n + before.length := by
  induction ls generalizing f n with
  | nil =>
    rw [readLines]
    exact ⟨nofun, fun ⟨before, line, after, _, _, h, _⟩ => by simp at h⟩
  | cons line ls ih =>
    obtain ⟨⟨body, eol, hline⟩, hrest⟩ := List.forall_mem_cons.1 hlines
    rw [readLines]
    constructor
    · intro h
      cases hread : f.readLine line with
      | error cause =>
        rw [hread] at h
        cases h
        -- the first line is the one that is refused
        exact ⟨[], line, ls, [], f.types, rfl, .nil, readLine_eq_error_iff.1 hread, rfl⟩
      | ok m =>
        rw [hread] at h
        obtain ⟨before, line', after, is, types, rfl, hhold, hrefused, hnumber⟩ := (ih hrest).1 h
        obtain ⟨is', hhold', _⟩ := linesHold_of_readLine hline hread hhold
        refine ⟨line :: before, line', after, is', types, rfl, hhold', hrefused, ?_⟩
        rw [hnumber, List.length_cons]
        omega
    · rintro ⟨before, line', after, is, types, heq, hhold, hrefused, hnumber⟩
      cases before with
      | nil =>
        cases heq
        rw [(linesHold_nil hhold).2] at hrefused
        rw [readLine_eq_error_iff.2 hrefused]
        cases e
        cases hnumber
        rfl
      | cons first before =>
        cases heq
        -- the first line is accepted, since it holds something
        obtain ⟨m, is', hread, hhold', _⟩ := readLine_of_linesHold hline hhold
        rw [hread]
        refine (ih hrest).2 ⟨before, line', after, is', types, rfl, hhold', hrefused, ?_⟩
        rw [hnumber, List.length_cons]
        omega

/-! ## One cursor

The source has no lines to read: it goes along the text with one cursor, passes over blanks and line
feeds alike, and reads a statement wherever one begins. `readOn` does the same on a text without
comments. That it comes to the same as reading line by line is due to the statement reader, which
never goes beyond the end of its line. -/

/-- Reading on along a text with one cursor, from line number `n` on: blanks are passed over and line
feeds counted until an instruction comes, which is read up to the end of its line. -/
def readOn (n : Nat) (f : Routine) : List Char → Except ParseError Routine
  | [] => .ok f
  | c :: cs =>
    if c = '\n' then readOn (n + 1) f cs
    else if isBlank c then readOn n f cs
    else
      match Reader.statement ⟨c :: cs, f.types⟩ with
      | .error cause => .error ⟨n, cause⟩
      | .ok (i, c') =>
        if c'.rest.length < (c :: cs).length then readOn n ⟨f.instrs ++ [i], c'.types⟩ c'.rest
        else .error ⟨n, .fault .stalled⟩
termination_by cs => cs.length
decreasing_by
  · exact Nat.lt_succ_self cs.length
  · exact Nat.lt_succ_self cs.length
  · assumption

variable {s body : List Char} {eol : Option Char}

theorem readOn_feed : readOn n f ('\n' :: s) = readOn (n + 1) f s := by
  rw [readOn, if_pos rfl]

/-- Blanks before a line are passed over. Induction on the text. -/
theorem readOn_dropWhile (left : List Char) :
    readOn n f (left ++ s) = readOn n f (left.dropWhile Reader.isGap ++ s) := by
  induction left with
  | nil => rfl
  | cons c left ih =>
    by_cases hc : Reader.isGap c = true
    · obtain ⟨hblank, hfeed⟩ := Bool.and_eq_true_iff.1 hc
      rw [List.cons_append, readOn, if_neg (bne_iff_ne.1 hfeed), if_pos hblank, ih,
        List.dropWhile_cons_of_pos hc]
    · rw [List.dropWhile_cons_of_neg hc]

/-- The cursor comes to the end of a line with what the line holds. Its blanks and its comment are
cut off beforehand, so that the cursor has only the tokens of the line before it. -/
theorem readOn_line (hline : IsLine body eol line) (hs : s.head? = eol) :
    readOn n f (said body ++ s) =
      match f.readLine line with
      | .ok g => readOn n g s
      | .error e => .error ⟨n, e⟩ := by
  by_cases hvacant : Vacant line
  · rw [readLine_of_vacant hline hvacant, hline.vacant_iff.1 hvacant, List.nil_append]
  · obtain ⟨c, left, hleft, hblank, hnot⟩ := hline.exists_said_cons hvacant
    have hfeed : c ≠ '\n' := (List.ne_of_not_mem_cons hnot).symm
    have hread : Reader.line ⟨content line, f.types⟩ =
        (some <$> Reader.statement) ⟨c :: left ++ eol.toList, f.types⟩ :=
      hleft ▸ Reader.line_of_not_vacant hline hvacant
    rw [← bind_pure_comp, Reader.bind_apply] at hread
    rw [readOn_dropWhile, hleft, List.cons_append, readOn, if_neg hfeed,
      if_neg (Bool.eq_false_iff.1 hblank), ← List.cons_append]
    -- the statement is the same with more text behind its line
    obtain ⟨e, h⟩ | ⟨i, left', types', hleft', h⟩ :=
      Reader.statement_local.behind f.types hline.ends hnot
    · rw [h eol.toList Option.head?_toList] at hread
      rw [h s hs, readLine_eq_error_iff.2 hread]
    · have hends := Reader.ends_of_statement (h eol.toList Option.head?_toList)
      obtain rfl : left' = [] := by
        cases left' with
        | nil => rfl
        | cons c' left' =>
          have hc' : c' = '\n' := beq_iff_eq.1 hends
          exact absurd (hc' ▸ List.mem_cons_self) hleft'
      rw [h eol.toList Option.head?_toList] at hread
      have hg : f.readLine line = .ok ⟨f.instrs ++ [i], types'⟩ :=
        readLine_eq_ok_iff.2 ⟨some i, _, hread, rfl⟩
      have hshort : s.length < (c :: (left ++ s)).length := by
        rw [List.length_cons, List.length_append]
        omega
      rw [h s hs, hg]
      exact if_pos hshort

/-- One cursor along the whole text finds what is found line by line. The text is taken without
comments and trailing blanks here; the scan that has to pass over these itself is the subject of
`scan_answers`. -/
theorem readLines_eq_readOn (h : Lined ls) : f.readLines n ls = readOn n f (ls.flatMap content) := by
  induction h generalizing f n with
  | nil => rw [readLines, List.flatMap_nil, readOn]
  | @last body hbody =>
    have hline : IsLine body none body := ⟨hbody, rfl, (List.append_nil body).symm⟩
    have hcontent : [body].flatMap content = said body ++ [] := by
      rw [List.flatMap_singleton, hline.content_eq, Option.toList_none]
    rw [hcontent, readOn_line hline rfl, readLines]
    cases f.readLine body with
    | error cause => rfl
    | ok g =>
      change g.readLines (n + 1) [] = readOn n g []
      rw [readLines, readOn]
  | @feed body ls hbody _ ih =>
    have hline : IsLine body (some '\n') (body ++ ['\n']) := ⟨hbody, rfl, rfl⟩
    have hcontent : ((body ++ ['\n']) :: ls).flatMap content =
        said body ++ '\n' :: ls.flatMap content := by
      rw [List.flatMap_cons, hline.content_eq, Option.toList_some, List.append_assoc,
        List.singleton_append]
    rw [hcontent, readOn_line hline rfl, readLines]
    cases f.readLine (body ++ ['\n']) with
    | error cause => rfl
    | ok g =>
      -- the cursor is in front of the line feed, which counts the next line
      change g.readLines (n + 1) ls = readOn n g ('\n' :: ls.flatMap content)
      rw [readOn_feed, ih]

/-! ## A whole text

Reading starts with an empty routine at line 1; so the laws of reading lines are laws of texts. -/

/-- Where a text ends in a line feed, reading a longer text is reading it and then, if it is accepted,
the lines of the rest. They are read from the instructions and types that it leaves on, and they are
numbered behind its own lines. -/
theorem parse_append {a : String} (ha : a = "" ∨ ∃ t, a = t ++ "\n") (b : String) :
    parse (a ++ b) =
      match parse a with
      | .ok f => f.readLines (1 + a.toList.count '\n') (lines b.toList)
      | .error e => .error e := by
  -- `a` ends where a line does
  have hends : Reader.EndsLine a.toList.getLast? := by
    obtain rfl | ⟨t, rfl⟩ := ha
    · rfl
    · rw [String.toList_append, List.getLast?_append]
      rfl
  obtain ⟨hlines, hcount⟩ := lines_append hends b.toList
  rw [parse, String.toList_append, hlines, readLines_append, hcount]
  rfl

/-- The lines of an accepted text hold its instructions in order, and lead to its table of types. -/
theorem parse_eq_ok_iff {text : String} :
    parse text = .ok f ↔ LinesHold ∅ (lines text.toList) f.instrs f.types := by
  rw [parse, readLines_eq_ok_iff fun _ => (lined_lines text.toList).isLine]
  constructor
  · rintro ⟨is, hhold, hinstrs⟩
    obtain rfl : f.instrs = is := hinstrs
    exact hhold
  · exact fun hhold => ⟨f.instrs, hhold, rfl⟩

/-- A text is refused at its first line that cannot be read with the types that the lines before it
have declared. -/
theorem parse_eq_error_iff {text : String} {e : ParseError} :
    parse text = .error e ↔
      ∃ before line after is types, lines text.toList = before ++ line :: after ∧
        LinesHold ∅ before is types ∧
        Reader.line ⟨content line, types⟩ = .error e.cause ∧ e.line = 1 + before.length := by
  rw [parse, readLines_eq_error_iff fun _ => (lined_lines text.toList).isLine]
  rfl

/-- A text is read line by line. Where a text ends in a line feed, an error in it is the error of any
longer text, and otherwise the rest of a longer text is read as if it stood alone, with the
instructions, the types and the line number of the beginning. So the lines of an accepted text hold
its instructions in order, the line of an error is the first that is refused behind the lines before
it, and one cursor along the whole text comes to the same. -/
theorem parse_lines :
    (∀ a b : String, (a = "" ∨ ∃ t, a = t ++ "\n") →
      (∀ e, parse a = .error e → parse (a ++ b) = .error e) ∧
      ∀ f, parse a = .ok f →
        parse (a ++ b) = f.readLines (1 + a.toList.count '\n') (lines b.toList)) ∧
    (∀ (text : String) f, parse text = .ok f ↔
      LinesHold ∅ (lines text.toList) f.instrs f.types) ∧
    (∀ (text : String) e, parse text = .error e ↔
      ∃ before line after is types, lines text.toList = before ++ line :: after ∧
        LinesHold ∅ before is types ∧
        Reader.line ⟨content line, types⟩ = .error e.cause ∧ e.line = 1 + before.length) ∧
    ∀ (text : String) f n,
      f.readLines n (lines text.toList) = readOn n f ((lines text.toList).flatMap content) := by
  refine ⟨fun a b ha => ⟨fun e he => ?_, fun f hf => ?_⟩, fun _ _ => parse_eq_ok_iff,
    fun _ _ => parse_eq_error_iff, fun text _ _ => readLines_eq_readOn (lined_lines text.toList)⟩
  · rw [parse_append ha, he]
  · rw [parse_append ha, hf]

/-- A constant, then a vacant line and a store of one operand: the error is on the third line, also
if an unknown opcode comes behind it. -/
theorem parse_lines_store :
    let constant := "%0:s32 = G_CONSTANT 5 ; five\n"
    let store := "  ; nothing\nG_STORE %0\n"
    let e : ParseError := ⟨3, .operandNotRegister .store 1⟩
    ∃ f, parse constant = .ok f ∧ f.instrs.length = 1 ∧
      LinesHold ∅ (lines constant.toList) f.instrs f.types ∧
      f.readLines 2 (lines store.toList) = .error e ∧
      readOn 2 f ((lines store.toList).flatMap content) = .error e ∧
      parse (constant ++ store) = .error e ∧
      parse (constant ++ store ++ "G_FROB\n") = .error e := by
  intro constant store e
  obtain ⟨hbehind, hok, _, hone⟩ := parse_lines
  let f : Routine :=
    ⟨[⟨.constant, [.reg ⟨0⟩, .imm 5], 1, [], by decide⟩], (∅ : TypeTable).insert ⟨0⟩ (.scalar 32)⟩
  have hf : parse constant = .ok f := by decide +kernel
  have hstore : f.readLines 2 (lines store.toList) = .error e := by decide +kernel
  have hconstant : ∃ t, constant = t ++ "\n" := ⟨"%0:s32 = G_CONSTANT 5 ; five", by decide +kernel⟩
  have hfeed : ∃ t, constant ++ store = t ++ "\n" :=
    ⟨"%0:s32 = G_CONSTANT 5 ; five\n  ; nothing\nG_STORE %0", by decide +kernel⟩
  have hnumber : 1 + constant.toList.count '\n' = 2 := by decide +kernel
  have hboth : parse (constant ++ store) = .error e := by
    rw [(hbehind constant store (.inr hconstant)).2 f hf, hnumber, hstore]
  exact ⟨f, hf, rfl, (hok constant f).1 hf, hstore, (hone store f 2).symm.trans hstore, hboth,
    (hbehind (constant ++ store) "G_FROB\n" (.inr hfeed)).1 e hboth⟩

end Routine

end Lowering
