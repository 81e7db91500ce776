import Lowering.Proofs.LineByLine

/-!
# Lowering — blanks and comments at the end of lines

Blanks and a comment at the end of any line of a text make no difference to what is read from it:
not to the routine, nor to the number of the line at which the text is refused and the cause
(`Routine.parse_suffixed`). They change nothing that a line says (`Text.said_trailing`), and the
line that they may add at the end of a text is vacant.
-/

namespace Lowering

open Text

namespace Text

/-! ## What stands at the end of a line

The suffix may be another one on each line, and also stand behind the last line feed of a text,
where it is a line of its own. Positions in a text are shifted by it, so what is compared are lines
and what is read from them. -/

/-- Blanks, and a comment behind them or nothing. -/
def Trailing (cs : List Char) : Prop :=
  ∃ blanks comment, cs = blanks ++ comment ∧ Reader.Gap blanks ∧ '\n' ∉ comment ∧
    (comment = [] ∨ comment.head? = some ';')

/-- The text with something more at the end of each of its lines, which are what is left when it is
split at its line feeds. -/
def suffixed (suffix : Nat → List Char) (cs : List Char) : List Char :=
  ['\n'].intercalate ((cs.splitOn '\n').mapIdx fun j line => line ++ suffix j)

variable {suffix : Nat → List Char} {body rest suf : List Char}

theorem suffixed_last (hbody : '\n' ∉ body) : suffixed suffix body = body ++ suffix 0 := by
  rw [suffixed, List.splitOn_eq_singleton hbody]
  simp

/-- The first line gets the first suffix before its line feed, and the others get the later ones. -/
theorem suffixed_feed (hbody : '\n' ∉ body) (rest : List Char) :
    suffixed suffix (body ++ '\n' :: rest) =
      (body ++ suffix 0) ++ '\n' :: suffixed (fun j => suffix (j + 1)) rest := by
  rw [suffixed, List.splitOn_append_cons_self_of_not_mem hbody, List.mapIdx_cons, suffixed]
  cases hlines : rest.splitOn '\n' with
  | nil => exact absurd hlines (List.splitOn_ne_nil _ _)
  | cons line ls =>
    rw [List.mapIdx_cons, List.intercalate_cons_cons, List.append_assoc, List.singleton_append]

theorem Trailing.not_mem (h : Trailing suf) : '\n' ∉ suf := by
  obtain ⟨blanks, comment, rfl, hblanks, hcomment, _⟩ := h
  intro hmem
  rcases List.mem_append.1 hmem with hmem | hmem
  · exact absurd (hblanks _ hmem) (by decide)
  · exact hcomment hmem

theorem Trailing.not_mem_append (h : Trailing suf) (hbody : '\n' ∉ body) : '\n' ∉ body ++ suf :=
  fun hmem => (List.mem_append.1 hmem).elim hbody h.not_mem

/-- No line is added to a text by what is added to its lines. Neither blanks within a line nor a
comment has a line feed in it. -/
theorem count_suffixed (hsuffix : ∀ j, Trailing (suffix j)) (cs : List Char) :
    (suffixed suffix cs).count '\n' = cs.count '\n' := by
  induction hlength : cs.length using Nat.strongRecOn generalizing suffix cs with
  | _ length ih =>
    have hnone {body : List Char} (hbody : '\n' ∉ body) : (body ++ suffix 0).count '\n' = 0 :=
      List.count_eq_zero.2 ((hsuffix 0).not_mem_append hbody)
    by_cases hfeed : '\n' ∈ cs
    · obtain ⟨body, rest, rfl, hbody⟩ := List.eq_append_cons_of_mem hfeed
      -- the rest behind the line feed is shorter, and its lines take the later suffixes
      have hless : rest.length < length := by
        rw [← hlength, List.length_append, List.length_cons]
        omega
      rw [suffixed_feed hbody, List.count_append, hnone hbody, List.count_append,
        List.count_eq_zero.2 hbody, List.count_cons_self, List.count_cons_self,
        ih _ hless (fun j => hsuffix (j + 1)) rest rfl]
    · rw [suffixed_last hfeed, hnone hfeed, List.count_eq_zero.2 hfeed]

/-- Blanks at the end of a text are taken off. -/
theorem trimEnd_append {cs w : List Char} (hw : ∀ c ∈ w, isBlank c = true) :
    trimEnd (cs ++ w) = trimEnd cs := by
  unfold trimEnd
  rw [List.reverse_append, List.dropWhile_append_of_pos fun c hc => hw c (List.mem_reverse.1 hc)]

/-- What a line says is the same with blanks and a comment at its end. If the line has a comment of
its own, all that is added belongs to it. -/
theorem said_trailing (h : Trailing suf) (body : List Char) : said (body ++ suf) = said body := by
  obtain ⟨blanks, comment, rfl, hblanks, _, hcomment⟩ := h
  have hword {run rest : List Char} (hrun : ';' ∉ run) (hrest : rest = [] ∨ rest.head? = some ';') :
      (run ++ rest).takeWhile (· ≠ ';') = run := by
    refine (Reader.takeWhile_run (fun c hc => ?_) fun c hc => ?_).1
    · exact decide_eq_true fun heq => hrun (heq ▸ hc)
    · rcases hrest with rfl | hrest
      · cases hc
      · rw [hrest] at hc
        cases hc
        rfl
  unfold said
  by_cases hmem : ';' ∈ body
  · -- the line has a comment already, and what is added belongs to it
    obtain ⟨run, more, rfl, hrun⟩ := List.eq_append_cons_of_mem hmem
    rw [List.append_assoc, List.cons_append, hword hrun (.inr rfl), hword hrun (.inr rfl)]
  · have hbody := hword hmem (.inl rfl)
    have hblank : ∀ c ∈ blanks, isBlank c = true :=
      fun c hc => (Bool.and_eq_true_iff.1 (hblanks c hc)).1
    have hrun : ';' ∉ body ++ blanks := fun h => by
      rcases List.mem_append.1 h with h | h
      · exact hmem h
      · exact absurd (hblank _ h) (by decide)
    rw [List.append_nil] at hbody
    rw [← List.append_assoc, hword hrun hcomment, hbody, trimEnd_append hblank]

/-! ## Lines with their blanks left on

The program takes the blanks off a line before it reads it. A reader would pass over them, so it
comes to the same if they are left on; this is `Reader.line_local` for the blanks that a line has
itself. -/

/-- The line without its comment, but with the blanks before it and with its line feed. -/
def uncommented (line : List Char) : List Char :=
  line.takeWhile (fun c => c ≠ ';' ∧ c ≠ '\n') ++ line.filter (· = '\n')

theorem exists_trimEnd_append (cs : List Char) :
    ∃ w, cs = trimEnd cs ++ w ∧ ∀ c ∈ w, isBlank c = true := by
  refine ⟨(cs.reverse.takeWhile isBlank).reverse, ?_, fun c hc => ?_⟩
  · rw [trimEnd, ← List.reverse_append, List.takeWhile_append_dropWhile, List.reverse_reverse]
  · exact List.all_eq_true.1 List.all_takeWhile c (List.mem_reverse.1 hc)

end Text

/-! ## Texts with suffixes

A line says the same with its suffix as without, so it is read in the same way. For a text this is
an induction on its lines; the suffixes move up by one with every line. -/

namespace Routine

variable {f : Routine} {n : Nat} {suffix : Nat → List Char} {body suf : List Char}

/-- A line is read as if the blanks at its end were left on it. Cutting them off is a convenience of
the reading line by line; a scan along the text does not, and this is where the two are
reconciled. -/
theorem readLine_uncommented (f : Routine) (line : List Char) :
    f.readLine line = (Reader.line ⟨uncommented line, f.types⟩).map fun (i?, c) =>
      ⟨f.instrs ++ i?.toList, c.types⟩ := by
  unfold readLine content uncommented
  -- what is cut off the end of `cs` are blanks, and a reader of a line is blind to those
  generalize hcs : line.takeWhile (fun c => c ≠ ';' ∧ c ≠ '\n') = cs
  generalize hs : line.filter (· = '\n') = s
  have hcs : '\n' ∉ cs := by
    rw [← hcs]
    intro hmem
    have hall := List.all_eq_true.1 (List.all_takeWhile (l := line)) _ hmem
    exact absurd hall (by decide)
  have hs : Reader.EndsLine s.head? := by
    cases s with
    | nil => rfl
    | cons c t =>
      have hc : c ∈ line.filter (· = '\n') := hs ▸ List.mem_cons_self
      exact (List.mem_filter.1 hc).2
  obtain ⟨w, heq, hblank⟩ := exists_trimEnd_append cs
  have hleft : '\n' ∉ trimEnd cs := fun h => hcs (heq ▸ List.mem_append_left w h)
  have hw : Reader.Gap w := by
    intro c hc
    have hfeed : c ≠ '\n' := fun h => hcs (heq ▸ List.mem_append_right _ (h ▸ hc))
    rw [Reader.isGap, hblank c hc, bne_iff_ne.2 hfeed, Bool.and_self]
  have hwhole : cs ++ s = trimEnd cs ++ (w ++ s) := by rw [← List.append_assoc, ← heq]
  rw [hwhole]
  have hnone : trimEnd cs ++ s = trimEnd cs ++ ([] ++ s) := rfl
  rw [hnone]
  cases Reader.line_local f.types hs hleft with
  | refuses e h =>
    simp only [StateT.run, h hw rfl, h Reader.gap_nil rfl]
    rfl
  | answers i? left' blanks types' _ _ h =>
    simp only [StateT.run, h hw rfl, h Reader.gap_nil rfl]
    rfl

/-- A line is read as if there were no blanks and no comment at its end. -/
theorem readLine_trailing (f : Routine) (hbody : '\n' ∉ body) (hsuf : Trailing suf)
    (eol : Option Char) (heol : Reader.EndsLine eol) :
    f.readLine (body ++ suf ++ eol.toList) = f.readLine (body ++ eol.toList) := by
  have hwith : IsLine (body ++ suf) eol (body ++ suf ++ eol.toList) :=
    ⟨hsuf.not_mem_append hbody, heol, rfl⟩
  have hwithout : IsLine body eol (body ++ eol.toList) := ⟨hbody, heol, rfl⟩
  unfold readLine
  rw [hwith.content_eq, hwithout.content_eq, said_trailing hsuf]

/-- A line of blanks and a comment holds nothing. -/
theorem readLines_trailing (hsuf : Trailing suf) : f.readLines n (lines suf) = .ok f := by
  by_cases hne : suf = []
  · rw [hne]
    rfl
  · have hline : IsLine suf none suf := ⟨hsuf.not_mem, rfl, (List.append_nil suf).symm⟩
    have hvacant : Vacant suf := hline.vacant_iff.2 (said_trailing hsuf [])
    rw [lines_last hsuf.not_mem hne, readLines, readLine_of_vacant hline hvacant]
    rfl

/-- The lines of a text are read as if they had no suffixes. Induction on the length of the text,
since the rest behind a line feed is split anew. -/
theorem readLines_suffixed (hsuffix : ∀ j, Trailing (suffix j)) (cs : List Char) :
    f.readLines n (lines (suffixed suffix cs)) = f.readLines n (lines cs) := by
  induction hlength : cs.length using Nat.strongRecOn generalizing f n suffix cs with
  | _ length ih =>
    by_cases hfeed : '\n' ∈ cs
    · obtain ⟨body, rest, rfl, hbody⟩ := List.eq_append_cons_of_mem hfeed
      have hread : f.readLine (body ++ suffix 0 ++ ['\n']) = f.readLine (body ++ ['\n']) :=
        readLine_trailing f hbody (hsuffix 0) (some '\n') rfl
      rw [suffixed_feed hbody, lines_feed ((hsuffix 0).not_mem_append hbody), lines_feed hbody,
        readLines, readLines, hread]
      cases f.readLine (body ++ ['\n']) with
      | error cause => rfl
      | ok g =>
        refine ih rest.length ?_ (fun j => hsuffix (j + 1)) rest rfl
        rw [← hlength, List.length_append, List.length_cons]
        omega
    · rw [suffixed_last hfeed]
      by_cases hne : cs = []
      · -- the text ends in a line feed, or is empty, and what is added is a line of its own
        rw [hne, List.nil_append]
        exact readLines_trailing (hsuffix 0)
      · have hread : f.readLine (cs ++ suffix 0 ++ []) = f.readLine (cs ++ []) :=
          readLine_trailing f hfeed (hsuffix 0) none rfl
        rw [List.append_nil, List.append_nil] at hread
        rw [lines_last ((hsuffix 0).not_mem_append hfeed) (List.append_ne_nil_of_left_ne_nil hne _),
          lines_last hfeed hne, readLines, readLines, hread]

/-- Blanks and comments at the end of the lines of a text make no difference to what is read from
it, nor to where and why it is refused. Nor do the blanks have to be taken off a line before it is
read: the readers do with them on the line what they do without. -/
theorem parse_suffixed :
    (∀ suffix : Nat → List Char, (∀ j, Trailing (suffix j)) → ∀ text : String,
      parse (String.ofList (suffixed suffix text.toList)) = parse text) ∧
    ∀ (f : Routine) (line : List Char),
      f.readLine line = (Reader.line ⟨uncommented line, f.types⟩).map fun (i?, c) =>
        ⟨f.instrs ++ i?.toList, c.types⟩ := by
  refine ⟨fun suffix hsuffix text => ?_, readLine_uncommented⟩
  unfold parse
  rw [String.toList_ofList]
  exact readLines_suffixed hsuffix text.toList

/-- A blank and a comment on each line, also behind the last line feed and where an operand is
missing. -/
theorem parse_suffixed_store :
    let suffix (_ : Nat) : List Char := " ; five".toList
    let constant := "%0:s32 = G_CONSTANT 5\n"
    let store := "%0:s32 = G_CONSTANT 5\nG_STORE %0,"
    (∀ j, Trailing (suffix j)) ∧
      suffixed suffix constant.toList = "%0:s32 = G_CONSTANT 5 ; five\n ; five".toList ∧
      suffixed suffix store.toList = "%0:s32 = G_CONSTANT 5 ; five\nG_STORE %0, ; five".toList ∧
      (∃ f, parse "%0:s32 = G_CONSTANT 5 ; five\n ; five" = .ok f ∧ f.instrs.length = 1) ∧
      parse "%0:s32 = G_CONSTANT 5 ; five\nG_STORE %0, ; five" =
        .error ⟨2, .expectedOperand none⟩ := by
  intro suffix constant store
  have htrailing (j : Nat) : Trailing (suffix j) :=
    ⟨[' '], "; five".toList, by decide +kernel, Reader.gap_space, by decide +kernel, .inr rfl⟩
  have hconstant : suffixed suffix constant.toList =
      "%0:s32 = G_CONSTANT 5 ; five\n ; five".toList := by decide +kernel
  have hstore : suffixed suffix store.toList =
      "%0:s32 = G_CONSTANT 5 ; five\nG_STORE %0, ; five".toList := by decide +kernel
  have hsame := parse_suffixed.1 suffix htrailing
  have hconstant' := hsame constant
  have hstore' := hsame store
  rw [hconstant, String.ofList_toList] at hconstant'
  rw [hstore, String.ofList_toList] at hstore'
  let f : Routine :=
    ⟨[⟨.constant, [.reg ⟨0⟩, .imm 5], 1, [], by decide⟩], (∅ : TypeTable).insert ⟨0⟩ (.scalar 32)⟩
  have hf : parse constant = .ok f := by decide +kernel
  have he : parse store = .error ⟨2, .expectedOperand none⟩ := by decide +kernel
  exact ⟨htrailing, hconstant, hstore, ⟨f, hconstant'.trans hf, rfl⟩, hstore'.trans he⟩

end Routine

end Lowering
