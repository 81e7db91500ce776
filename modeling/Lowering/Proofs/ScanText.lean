import Lowering.Proofs.ScanInstr
import Lowering.Proofs.TrailingBlanks

/-!
# Lowering — scanning a whole text

A scan answers for every text whose lines can be numbered with 32 bits. It finds the routine that is
read line by line, or refuses the text with the same error, and it halts for no other reason
(`Routine.scan_answers`). Each round of its loop passes over blanks and comments, with the lines
that these fill, and then over one statement; what is still to be read is the same for the lines
ahead as for the rest of the text at the cursor (`Scan.next_cases`).

Since the two agree (`Routine.scan_eq_parse`), the laws of reading are laws of the scan: which lines
a routine is found on and at which line a text is refused (`Routine.scan_eq_ok_iff`,
`Routine.scan_eq_error_iff`), that the beginning of a text is scanned whatever stands behind it
(`Routine.scan_append`), and that blanks and comments at the ends of lines make no difference
(`Routine.scan_suffixed`).
-/

namespace Lowering

open Text

variable {text before mid rest s : List Char} {f : Routine} {n : Nat}

theorem Reader.line_gap {c : Char} (hc : Reader.isGap c = true) (cs : List Char) (types : TypeTable) :
    Reader.line ⟨c :: cs, types⟩ = Reader.line ⟨cs, types⟩ := by
  unfold Reader.line
  rw [Reader.bind_apply, Reader.bind_apply, Reader.atLineEnd_apply, Reader.atLineEnd_apply]
  simp only [List.dropWhile_cons_of_pos hc]

namespace Routine

open Reader (EndsLine isGap)

/-! ## A line and the text behind it

The scan has the rest of the text ahead, and the reading of lines has lines. To compare them, the
lines of a text are told by the text at its beginning: what a blank, a comment or a line feed there
does to them, and what its first line does. -/

/-- A line feed only counts the lines. -/
theorem readLines_feed (cs : List Char) :
    f.readLines n (lines ('\n' :: cs)) = f.readLines (n + 1) (lines cs) := by
  have hfeed : IsLine [] (some '\n') ['\n'] := ⟨List.not_mem_nil, rfl, rfl⟩
  have hlines : lines ('\n' :: cs) = ['\n'] :: lines cs := lines_feed List.not_mem_nil cs
  rw [hlines, readLines, readLine_of_vacant hfeed (hfeed.vacant_iff.2 rfl)]

/-- A text is read by reading its first line, and then what comes behind it from the end of that line
on. -/
theorem readLines_line {body : List Char} (hbody : '\n' ∉ body) (hs : EndsLine s.head?) :
    f.readLines n (lines (body ++ s)) =
      match f.readLine (body ++ s.head?.toList) with
      | .ok g => g.readLines n (lines s)
      | .error cause => .error ⟨n, cause⟩ := by
  cases s with
  | nil =>
    simp only [List.head?_nil, Option.toList_none, List.append_nil]
    by_cases hne : body = []
    · -- a text that ends in a line feed has no line behind it, and an empty line reads the same
      have hline : IsLine [] none [] := ⟨List.not_mem_nil, rfl, rfl⟩
      rw [hne, readLine_of_vacant hline nofun]
    · rw [lines_last hbody hne, readLines]
      cases f.readLine body <;> rfl
  | cons c t =>
    obtain rfl : c = '\n' := beq_iff_eq.1 hs
    rw [lines_feed hbody, readLines, List.head?_cons, Option.toList_some]
    cases f.readLine (body ++ ['\n']) with
    | error cause => rfl
    | ok g => exact (readLines_feed t).symm

/-- A blank before a line makes no difference to it. -/
theorem readLine_gap {c : Char} (hc : isGap c = true) (line : List Char) :
    f.readLine (c :: line) = f.readLine line := by
  have hfeed : c ≠ '\n' := bne_iff_ne.1 (Bool.and_eq_true_iff.1 hc).2
  have hcomment : c ≠ ';' := by
    rintro rfl
    exact absurd hc (by decide)
  have huncommented : uncommented (c :: line) = c :: uncommented line := by
    simp [uncommented, hfeed, hcomment]
  rw [readLine_uncommented, readLine_uncommented, huncommented, Reader.line_gap hc]

/-- A blank before a text makes no difference to its lines. -/
theorem readLines_gap {c : Char} (hc : isGap c = true) (cs : List Char) :
    f.readLines n (lines (c :: cs)) = f.readLines n (lines cs) := by
  obtain ⟨body, s, rfl, hbody, hs⟩ := Scan.exists_line cs
  have hfeed : c ≠ '\n' := bne_iff_ne.1 (Bool.and_eq_true_iff.1 hc).2
  have hbody' : '\n' ∉ c :: body := List.not_mem_cons_of_ne_of_not_mem (Ne.symm hfeed) hbody
  rw [← List.cons_append, readLines_line hbody' hs, readLines_line hbody hs, List.cons_append,
    readLine_gap hc]

/-- A comment up to the end of its line holds nothing. -/
theorem readLines_comment {cs : List Char} (hfeed : '\n' ∉ cs) (hs : EndsLine s.head?) :
    f.readLines n (lines (';' :: (cs ++ s))) = f.readLines n (lines s) := by
  have hbody : '\n' ∉ ';' :: cs := List.not_mem_cons_of_ne_of_not_mem (by decide) hfeed
  have hline : IsLine (';' :: cs) s.head? (';' :: cs ++ s.head?.toList) := ⟨hbody, hs, rfl⟩
  rw [← List.cons_append, readLines_line hbody hs,
    readLine_of_vacant hline (hline.vacant_iff.2 rfl)]

/-- What the scan passes over between two statements only counts the lines. Induction on what is
passed over: a line feed ends a vacant line, any other blank belongs to the next line, and so does a
comment. -/
theorem readLines_passes (h : Scan.Passes true mid rest) :
    f.readLines n (lines (mid ++ rest)) = f.readLines (n + mid.count '\n') (lines rest) := by
  induction h generalizing n with
  | stop _ => rfl
  | @blank c mid rest _ hblank _ ih =>
    rw [List.cons_append]
    by_cases hc : c = '\n'
    · rw [hc, readLines_feed, ih, List.count_cons_self, Nat.add_assoc, Nat.add_comm 1]
    · have hgap : isGap c = true := by
        have hblank : isBlank c = true := (Bool.and_eq_true_iff.1 hblank).1
        rw [isGap, hblank, bne_iff_ne.2 hc, Bool.and_self]
      -- a blank that ends no line only makes the next line longer
      rw [readLines_gap hgap, ih, List.count_cons_of_ne hc]
  | @comment cs mid rest hfeed hends _ ih =>
    have hcount : (';' :: (cs ++ mid)).count '\n' = mid.count '\n' := by
      rw [List.count_cons_of_ne (by decide), List.count_append, List.count_eq_zero.2 hfeed,
        Nat.zero_add]
    rw [List.cons_append, List.append_assoc, readLines_comment hfeed hends, ih, hcount]

end Routine

namespace Scan

open Reader (EndsLine isGap)

/-! ## One statement

Once the blanks are passed over, the cursor is on a line with something on it. This line is what
`Spot` takes apart: the text before its comment, which the reader gets, and the comment with what is
behind it, which only counts once the statement is scanned. -/

/-- The cursor is on a line of the text. The line goes on up to the next line feed or to the end,
and is parted into what is before its first semicolon and its comment. -/
theorem Split.exists_on (h : Split text before rest) :
    ∃ left comment s, rest = left ++ (comment ++ s) ∧ (⟨before, left, comment⟩ : Spot).On text s := by
  obtain ⟨body, s, rfl, hbody, hs⟩ := exists_line rest
  have hleft : body = body.takeWhile (· != ';') ++ body.dropWhile (· != ';') :=
    List.takeWhile_append_dropWhile.symm
  have heq : body ++ s = body.takeWhile (· != ';') ++ (body.dropWhile (· != ';') ++ s) := by
    rw [← List.append_assoc, ← hleft]
  -- the line is split at its first semicolon
  refine ⟨_, _, s, heq, heq ▸ h, hs, fun c hc => ⟨?_, ?_⟩, ?_, fun c hc => ?_⟩
  · rintro rfl
    exact hbody ((List.takeWhile_prefix _).subset hc)
  · exact bne_iff_ne.1 (List.all_eq_true.1 List.all_takeWhile c hc)
  · exact fun hmem => hbody ((List.dropWhile_suffix _).subset hmem)
  · have hc : (c != ';') = false := Reader.not_of_head?_dropWhile (p := (· != ';')) hc
    exact bne_eq_false_iff_eq.1 hc

variable {q : Spot}

/-- What the reader of a line has is the line without its comment. -/
theorem Spot.On.uncommented_eq (h : q.On text s) :
    uncommented (q.left ++ q.comment ++ s.head?.toList) = (q.cursor s f.types).rest := by
  have hplain : ∀ c ∈ q.left, decide (c ≠ ';' ∧ c ≠ '\n') = true :=
    fun c hc => decide_eq_true ⟨(h.plain c hc).2, (h.plain c hc).1⟩
  have hstop : ∀ c, (q.comment ++ s.head?.toList).head? = some c →
      decide (c ≠ ';' ∧ c ≠ '\n') = false := by
    intro c hc
    -- the place sees all of the rest of the text, the reader only the line
    have hc : (q.behind s).head? = some c := by
      rw [Spot.behind, List.head?_append]
      rwa [List.head?_append, Option.head?_toList] at hc
    exact decide_eq_false fun hne => (h.head?_behind hc).elim hne.2 hne.1
  have hfeeds : (q.left ++ q.comment ++ s.head?.toList).filter (· = '\n') = s.head?.toList := by
    have hnone : ∀ c ∈ q.left ++ q.comment, ¬ decide (c = '\n') = true := by
      intro c hc heq
      rcases List.mem_append.1 hc with hc | hc
      · exact (h.plain c hc).1 (of_decide_eq_true heq)
      · exact h.comment_feed (of_decide_eq_true heq ▸ hc)
    rw [List.filter_append, List.filter_eq_nil_iff.2 hnone, List.nil_append]
    obtain hs | hs := h.ends.eq_or <;> rw [hs] <;> rfl
  rw [uncommented, hfeeds, List.append_assoc, (Reader.takeWhile_run hplain hstop).1]
  rfl

/-- A line with a statement on it is read as the statement. -/
theorem Spot.On.readLine_eq (h : q.On text s) {c : Char} {left : List Char}
    (hleft : q.left = c :: left) (hgap : isGap c = false) :
    f.readLine (q.left ++ q.comment ++ s.head?.toList) =
      match Reader.statement (q.cursor s f.types) with
      | .ok (i, c') => .ok ⟨f.instrs ++ [i], c'.types⟩
      | .error cause => .error cause := by
  have hdrop : (q.cursor s f.types).rest.dropWhile isGap = (q.cursor s f.types).rest := by
    rw [Spot.cursor, hleft]
    exact List.dropWhile_cons_of_neg (by simp [hgap])
  -- a statement begins here, so the line is not passed over as an empty one
  have hends : ¬ EndsLine ((q.cursor s f.types).rest.dropWhile isGap).head? := by
    rw [hdrop, Spot.cursor, hleft]
    have hc : c ≠ '\n' := (h.plain c (hleft ▸ List.mem_cons_self)).1
    simpa [EndsLine] using hc
  have hline : Reader.line ⟨(q.cursor s f.types).rest, f.types⟩ =
      (some <$> Reader.statement) (q.cursor s f.types) := by
    rw [Reader.line_statement (c := ⟨(q.cursor s f.types).rest, f.types⟩) hends]
    simp only [hdrop]
    rfl
  rw [Routine.readLine_uncommented, h.uncommented_eq (f := f), hline, ← bind_pure_comp,
    Reader.bind_apply]
  cases Reader.statement (q.cursor s f.types) <;> rfl

/-- Nothing is left of a line on which a statement was accepted. -/
theorem left_eq_nil_of_statement {q' : Spot} {types : TypeTable} {i : Instr} {c : Cursor}
    (hon : q'.On text s) (h : Reader.statement c = .ok (i, q'.cursor s types)) : q'.left = [] := by
  have hends := Reader.ends_of_statement h
  cases hleft : q'.left with
  | nil => rfl
  | cons d left =>
    rw [Spot.cursor, hleft] at hends
    have hd : d = '\n' := beq_iff_eq.1 hends
    exact ((hon.plain d (hleft ▸ List.mem_cons_self)).1 hd).elim

/-- Behind what is left of a line, its comment makes no difference to the lines ahead. -/
theorem Spot.On.readLines_behind (h : q.On text s) :
    f.readLines n (lines (q.behind s)) = f.readLines n (lines s) := by
  have hhead := h.comment_head
  have hfeed := h.comment_feed
  rw [Spot.behind]
  cases hcomment : q.comment with
  | nil => rfl
  | cons c cs =>
    rw [hcomment] at hhead hfeed
    rw [hhead c rfl, List.cons_append]
    exact Routine.readLines_comment (List.not_mem_of_not_mem_cons hfeed) h.ends

/-- A statement is scanned as it is read, and so is what comes behind it. Either both are refused
with one cause at the number of this line, or the scan stands at the end of the line with the
instruction added, and the lines behind are still to be read. -/
theorem statement_cases (h : q.On text s) {c : Char} {left : List Char} (hleft : q.left = c :: left)
    (hgap : isGap c = false) (f : Routine) :
    (∃ cause, (∀ b, cause ≠ .fault b) ∧
      statement text (q.place f) = .error (.refused ⟨1 + q.before.count '\n', cause⟩) ∧
      f.readLines (1 + q.before.count '\n') (lines (q.left ++ q.behind s)) =
        .error ⟨1 + q.before.count '\n', cause⟩) ∨
    ∃ i, ∃ q' : Spot, ∃ types, q'.On text s ∧ q.Leads q' ∧ q'.left = [] ∧
      statement text (q.place f) = .ok (i, q'.place { f with types }) ∧
      f.readLines (1 + q.before.count '\n') (lines (q.left ++ q.behind s)) =
        (⟨f.instrs ++ [i], types⟩ : Routine).readLines (1 + q'.before.count '\n')
          (lines (q'.behind s)) := by
  -- the comment belongs to the line, and with it the line ends where `s` begins
  have hbody : '\n' ∉ q.left ++ q.comment := fun hmem =>
    (List.mem_append.1 hmem).elim (fun hc => (h.plain _ hc).1 rfl) h.comment_feed
  have hlines := Routine.readLines_line (f := f) (n := 1 + q.before.count '\n') hbody h.ends
  rw [h.readLine_eq hleft hgap, List.append_assoc] at hlines
  cases statement_follows f h with
  | refuses cause hcause hscan hread =>
    rw [hread] at hlines
    exact .inl ⟨cause, hcause, hscan, hlines⟩
  | answers i q' types hon hq hscan hread =>
    rw [hread] at hlines
    refine .inr ⟨i, q', types, hon, hq, left_eq_nil_of_statement hon hread, hscan, hlines.trans ?_⟩
    rw [hon.readLines_behind, h.count_eq hon]
    rfl

/-! ## One round of the loop

The loop over the statements has one case for each of its ends, and one to go on. Each case says
what the scan does and what the lines ahead come to, so that the whole text is an induction on
rounds. -/

/-- What one round does: it comes to the end of the text, it refuses the text, or it goes on behind a
statement. The lines ahead say the same. -/
inductive Round (text before rest : List Char) (f : Routine) : Prop
  | ends (p : Place) (hscan : next text (place before f) = .ok (none, p)) (hfound : p.found = f)
      (hread : f.readLines (1 + before.count '\n') (lines rest) = .ok f)
  | refuses (e : ParseError) (hcause : ∀ b, e.cause ≠ .fault b)
      (hline : 1 ≤ e.line ∧ e.line ≤ 1 + text.count '\n')
      (hscan : next text (place before f) = .error (.refused e))
      (hread : f.readLines (1 + before.count '\n') (lines rest) = .error e)
  | goes (before' rest' : List Char) (g : Routine) (hat : Split text before' rest')
      (hpos : byteSize before < byteSize before')
      (hscan : next text (place before f) = .ok (some (), place before' g))
      (hread : f.readLines (1 + before.count '\n') (lines rest) =
        g.readLines (1 + before'.count '\n') (lines rest'))

theorem Spot.On.line_le (h : q.On text s) : 1 + q.before.count '\n' ≤ 1 + text.count '\n' := by
  rw [h.split.eq, List.count_append]
  omega

/-- A round passes over blanks and comments, which only count lines, and then over a statement if
the text is not at its end. -/
theorem next_cases (h : Split text before rest) (f : Routine) : Round text before rest f := by
  obtain ⟨mid, rest', rfl, hpasses⟩ := exists_passes true rest
  have hat : Split text (before ++ mid) rest' := h.move
  have hblanks : f.readLines (1 + before.count '\n') (lines (mid ++ rest')) =
      f.readLines (1 + (before ++ mid).count '\n') (lines rest') := by
    rw [Routine.readLines_passes hpasses, List.count_append, Nat.add_assoc]
  have hnext : next text (place before f) = _ := bind_of_ok (skipBlanks_apply hpasses h)
  rw [bind_of_ok (atEnd_apply hat)] at hnext
  cases hrest : rest' with
  | nil =>
    rw [hrest] at hblanks hnext
    exact .ends _ hnext rfl hblanks
  | cons c t =>
    obtain ⟨hcomment, hblank⟩ := hpasses.head (congrArg List.head? hrest)
    have hplain : c ≠ '\n' ∧ c ≠ ';' := ⟨by rintro rfl; exact absurd hblank (by decide), hcomment⟩
    have hgap : isGap c = false := by
      simp only [isSkipped, Bool.true_or, Bool.and_true] at hblank
      rw [isGap, hblank, Bool.false_and]
    -- the statement begins where the blanks end
    obtain ⟨left, comment, s, hsplit, hon⟩ := hat.exists_on
    rw [hrest] at hsplit hblanks hnext
    let q : Spot := ⟨before ++ mid, left, comment⟩
    have hhead : (q.left ++ q.behind s).head? = some c := congrArg List.head? hsplit.symm
    obtain ⟨left', hleft⟩ := Spot.left_eq_cons (fun _ => hon.head?_behind) hplain hhead
    have hahead : c :: t = q.left ++ q.behind s := hsplit
    rw [hahead] at hblanks ⊢
    obtain ⟨cause, hcause, hscan, hread⟩ | ⟨i, q', types, hon', hq, hnil, hscan, hread⟩ :=
      statement_cases hon hleft hgap f
    · exact .refuses ⟨_, cause⟩ hcause ⟨Nat.le_add_right 1 _, hon.line_le⟩
        (hnext.trans (bind_of_error hscan)) (hblanks.trans hread)
    · have hsplit' := hon'.split
      rw [hnil, List.nil_append] at hsplit'
      have hpos : byteSize (before ++ mid) < byteSize q'.before :=
        hon.pos_lt hon' hq (by rw [hnil, hleft]; exact Nat.zero_lt_succ _)
      rw [byteSize_append] at hpos
      exact .goes q'.before (q'.behind s) ⟨f.instrs ++ [i], types⟩ hsplit' (by omega)
        (hnext.trans (bind_of_ok hscan)) (hblanks.trans hread)

/-! ## The whole text

The rest of a text gets shorter with every round, since a statement is not empty. This is the
induction that carries the agreement of scan and reading from one line to all of them. -/

/-- From any place on, the scan of the rest of a text ends as the reading of the lines ahead.
Induction on the size of the rest: what is passed over and a statement take at least one character
together, which is also why the loop does not stop before its time. -/
theorem loop_next (h : Split text before rest) (f : Routine) :
    (∃ xs p, loop text (next text) (place before f) = .ok (xs, p) ∧
      f.readLines (1 + before.count '\n') (lines rest) = .ok p.found) ∨
    ∃ e, loop text (next text) (place before f) = .error (.refused e) ∧
      f.readLines (1 + before.count '\n') (lines rest) = .error e ∧
      (∀ b, e.cause ≠ .fault b) ∧ 1 ≤ e.line ∧ e.line ≤ 1 + text.count '\n' := by
  induction hsize : byteSize rest using Nat.strongRecOn generalizing before rest f with
  | _ size ih =>
    cases next_cases h f with
    | ends p hscan hfound hread => exact .inl ⟨[], p, loop_stop hscan, hfound ▸ hread⟩
    | refuses e hcause hline hscan hread =>
      exact .inr ⟨e, loop_error hscan, hread, hcause, hline⟩
    | goes before' rest' g hat hpos hscan hread =>
      have hless : byteSize rest' < size := by
        have hwhole := h.byteSize_eq
        rw [hat.byteSize_eq] at hwhole
        omega
      -- both go on behind the statement, with the same routine and the same line number
      rw [loop_more hscan hat hpos, hread]
      obtain ⟨xs, p, hloop, hok⟩ | ⟨e, hloop, herror⟩ := ih _ hless hat g rfl
      · rw [hloop]
        exact .inl ⟨() :: xs, p, rfl, hok⟩
      · rw [hloop]
        exact .inr ⟨e, rfl, herror⟩

/-- From the beginning on, the scan of a text ends as the reading of its lines. -/
theorem loop_start (text : String) (hfeeds : text.toList.count '\n' < UInt32.size - 1) :
    (∃ xs p, loop text.toList (next text.toList) ⟨0, 1, .empty⟩ = .ok (xs, p) ∧
      Routine.parse text = .ok p.found) ∨
    ∃ e, loop text.toList (next text.toList) ⟨0, 1, .empty⟩ = .error (.refused e) ∧
      Routine.parse text = .error e ∧
      (∀ b, e.cause ≠ .fault b) ∧ 1 ≤ e.line ∧ e.line ≤ 1 + text.toList.count '\n' := by
  have hstart : Split text.toList [] text.toList := ⟨rfl, hfeeds⟩
  exact loop_next hstart .empty

end Scan

namespace Routine

variable {text : String}

/-- A scan finds what is read line by line, and where that is refused it refuses the text with the
same error. This is what carries the laws of reading over to the scan. -/
theorem scan_eq_parse (hfeeds : text.toList.count '\n' < UInt32.size - 1) :
    scan text = (parse text).mapError Halt.refused := by
  unfold scan
  obtain ⟨xs, p, hscan, hread⟩ | ⟨e, hscan, hread, _⟩ := Scan.loop_start text hfeeds
  · rw [hscan, hread]
    rfl
  · rw [hscan, hread]
    rfl

/-- An error is about a line of the text, and its cause lies in the text: no contract of the
instruction side is broken. -/
theorem error_of_parse (hfeeds : text.toList.count '\n' < UInt32.size - 1) {e : ParseError}
    (h : parse text = .error e) :
    (∀ b, e.cause ≠ .fault b) ∧ 1 ≤ e.line ∧ e.line ≤ 1 + text.toList.count '\n' := by
  obtain ⟨xs, p, _, hread⟩ | ⟨e', _, hread, herror⟩ := Scan.loop_start text hfeeds
  · rw [h] at hread
    cases hread
  · rw [h] at hread
    cases hread
    exact herror

/-- A text whose lines can be numbered is scanned to its end or refused. No loop of the scan stalls,
every slice is between characters of the text that the cursor has come to, the line number stays
within 32 bits, and no contract of the instruction side is broken. The routine that is found, or the
error with its line, is the one that is read line by line. -/
theorem scan_answers (text : String) (hfeeds : text.toList.count '\n' < UInt32.size - 1) :
    (∃ f, scan text = .ok f ∧ parse text = .ok f) ∨
    ∃ e, scan text = .error (.refused e) ∧ parse text = .error e ∧ (∀ b, e.cause ≠ .fault b) ∧
      1 ≤ e.line ∧ e.line ≤ 1 + text.toList.count '\n' := by
  rw [scan_eq_parse hfeeds]
  cases hread : parse text with
  | ok f => exact .inl ⟨f, rfl, rfl⟩
  | error e => exact .inr ⟨e, rfl, rfl, error_of_parse hfeeds hread⟩

/-- A comment with a character of two bytes and a negative hexadecimal immediate behind it; then a
vacant line and an unknown opcode, which is reported for the fourth line. -/
theorem scan_answers_constant :
    let constant := ";\u00e9\n%0:s32 = G_CONSTANT -0x10\n"
    let frob := constant ++ "\n  G_FROB \u00e9"
    (constant.toList.count '\n' < UInt32.size - 1 ∧ frob.toList.count '\n' < UInt32.size - 1) ∧
      (∃ f, scan constant = .ok f ∧ f.instrs.map Instr.operands = [[.reg ⟨0⟩, .imm (-16)]]) ∧
      scan frob = .error (.refused ⟨4, .unknownOpcode "G_FROB"⟩) := by
  intro constant frob
  have hconstant : constant.toList.count '\n' < UInt32.size - 1 := by decide +kernel
  have hfrob : frob.toList.count '\n' < UInt32.size - 1 := by decide +kernel
  let f : Routine :=
    ⟨[⟨.constant, [.reg ⟨0⟩, .imm (-16)], 1, [], by decide⟩],
      (∅ : TypeTable).insert ⟨0⟩ (.scalar 32)⟩
  have hf : parse constant = .ok f := by decide +kernel
  have he : parse frob = .error ⟨4, .unknownOpcode "G_FROB"⟩ := by decide +kernel
  refine ⟨⟨hconstant, hfrob⟩, ?_, ?_⟩
  · obtain ⟨g, hscan, hg⟩ | ⟨e, _, he', _⟩ := scan_answers constant hconstant
    · rw [hf] at hg
      cases hg
      exact ⟨f, hscan, rfl⟩
    · rw [hf] at he'
      cases he'
  · obtain ⟨g, _, hg⟩ | ⟨e, hscan, he', _⟩ := scan_answers frob hfrob
    · rw [he] at hg
      cases hg
    · rw [he] at he'
      cases he'
      exact hscan

/-! ## The laws of reading, read off the scan

What holds of reading line by line holds of the cursor: it is the cursor, with its positions, its
line numbers and its comments, that comes to a line with nothing from the lines before but the
instructions and the types. -/

variable {f : Routine} {a b : String}

/-- The lines of a scanned text hold its instructions in order. -/
theorem scan_eq_ok_iff (hfeeds : text.toList.count '\n' < UInt32.size - 1) :
    scan text = .ok f ↔ LinesHold ∅ (lines text.toList) f.instrs f.types := by
  rw [scan_eq_parse hfeeds, ← parse_eq_ok_iff]
  cases parse text <;> simp [Except.mapError]

/-- A scan halts at the first line that cannot be read behind those before it, and there for no other
reason than that the text is refused. -/
theorem scan_eq_error_iff (hfeeds : text.toList.count '\n' < UInt32.size - 1) {halt : Halt} :
    scan text = .error halt ↔
      ∃ before line after is types cause, lines text.toList = before ++ line :: after ∧
        LinesHold ∅ before is types ∧ Reader.line ⟨content line, types⟩ = .error cause ∧
        halt = .refused ⟨1 + before.length, cause⟩ := by
  rw [scan_eq_parse hfeeds]
  constructor
  · intro h
    cases hread : parse text with
    | ok f =>
      rw [hread] at h
      cases h
    | error e =>
      rw [hread] at h
      cases h
      obtain ⟨before, line, after, is, types, hlines, hhold, hrefused, hnumber⟩ :=
        parse_eq_error_iff.1 hread
      exact ⟨before, line, after, is, types, e.cause, hlines, hhold, hrefused, hnumber ▸ rfl⟩
  · rintro ⟨before, line, after, is, types, cause, hlines, hhold, hrefused, rfl⟩
    have hread : parse text = .error ⟨1 + before.length, cause⟩ :=
      parse_eq_error_iff.2 ⟨before, line, after, is, types, hlines, hhold, hrefused, rfl⟩
    rw [hread]
    rfl

/-- What a scan finds up to a line feed does not depend on what stands behind it. If it halts in the
beginning, it halts there in the whole text, too; otherwise the lines of the rest are read behind
those of the beginning. -/
theorem scan_append (ha : a = "" ∨ ∃ t, a = t ++ "\n")
    (hfeeds : (a ++ b).toList.count '\n' < UInt32.size - 1) :
    scan (a ++ b) =
      match scan a with
      | .ok f => (f.readLines (1 + a.toList.count '\n') (lines b.toList)).mapError .refused
      | .error halt => .error halt := by
  have hfeeds' : a.toList.count '\n' < UInt32.size - 1 := by
    rw [String.toList_append, List.count_append] at hfeeds
    omega
  rw [scan_eq_parse hfeeds, scan_eq_parse hfeeds', parse_append ha]
  cases parse a <;> rfl

/-- The cursor finds the same in a text without its comments and the blanks before them. -/
theorem scan_eq_readOn (hfeeds : text.toList.count '\n' < UInt32.size - 1) :
    scan text = (readOn 1 empty ((lines text.toList).flatMap content)).mapError .refused := by
  rw [scan_eq_parse hfeeds, parse, readLines_eq_readOn (lined_lines text.toList)]

/-- Blanks and comments at the end of the lines make no difference to a scan. -/
theorem scan_suffixed {suffix : Nat → List Char} (hsuffix : ∀ j, Trailing (suffix j))
    (hfeeds : text.toList.count '\n' < UInt32.size - 1) :
    scan (String.ofList (suffixed suffix text.toList)) = scan text := by
  have hfeeds' : (String.ofList (suffixed suffix text.toList)).toList.count '\n' <
      UInt32.size - 1 := by
    rwa [String.toList_ofList, count_suffixed hsuffix]
  rw [scan_eq_parse hfeeds', scan_eq_parse hfeeds, parse, String.toList_ofList,
    readLines_suffixed hsuffix, ← parse]

end Routine

end Lowering
