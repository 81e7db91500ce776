import Lowering.Routine.Scan
import Lowering.Proofs.ReadBack

/-!
# Lowering — laws of scanning

What a scan does where the cursor stands between two parts of the text, `before` and `rest`. Such a
place has the size of `before` as its position and a line number from the line feeds in it
(`Scan.place`), and every law leads to another such place, so all slices are between characters.

* `ahead_apply`, `slice_apply` and `advance_apply` give the cursor, and `loop_more` a loop that moves on.
* `passRun_apply` and `takeRun_apply` give the runs of characters of one kind.
* `Passes` says which blanks and comments are passed over; `exists_passes` that there is an end to
  them, and `skipBlanks_apply` that the cursor gets there.
-/

namespace Lowering.Scan

open Text

variable {α β : Type}

/-! ## Sequences

A scan is a computation on a place that can halt, so a sequence of scans goes on where the first has
answered and halts where it has. -/

theorem bind_apply (x : Scan α) (f : α → Scan β) (p : Place) :
    (x >>= f) p =
      match x p with
      | .ok (a, p') => f a p'
      | .error h => .error h := by
  change (x p >>= fun (a, p') => f a p') = _
  cases x p <;> rfl

/-- A sequence goes on where its first part stopped. -/
theorem bind_of_ok {x : Scan α} {f : α → Scan β} {p p' : Place} {a : α} (h : x p = .ok (a, p')) :
    (x >>= f) p = f a p' := by
  rw [bind_apply, h]

theorem bind_of_error {x : Scan α} {f : α → Scan β} {p : Place} {e : Halt} (h : x p = .error e) :
    (x >>= f) p = .error e := by
  rw [bind_apply, h]

/-! ## Places

The scan knows a position and a line number; the proofs know what is before the cursor and what is
behind it. The first two are computed from the text before, and the text is the same all the
time. -/

/-- The place behind the beginning of a text, with what has been found in it. -/
def place (before : List Char) (f : Routine) : Place :=
  ⟨byteSize before, 1 + before.count '\n', f⟩

/-- A text in two parts, with a 32-bit number for each of its lines. -/
structure Split (text before rest : List Char) : Prop where
  eq : text = before ++ rest
  numbered : text.count '\n' < UInt32.size - 1

variable {text before rest mid : List Char} {c : Char} {f : Routine}

/-- The cursor goes on behind a part of what was ahead. -/
theorem Split.move (h : Split text before (mid ++ rest)) : Split text (before ++ mid) rest :=
  ⟨h.eq.trans (List.append_assoc _ _ _).symm, h.numbered⟩

theorem Split.step (h : Split text before (c :: rest)) : Split text (before ++ [c]) rest :=
  Split.move h

/-- The sizes before and behind the cursor are together that of the text. -/
theorem Split.byteSize_eq (h : Split text before rest) :
    byteSize text = byteSize before + byteSize rest := by
  rw [h.eq, byteSize_append]

/-! ## The cursor

What is ahead of a position is found out from the whole text, which fails if the position is not
between characters. A place is, so all of these answer. -/

theorem ahead_apply (h : Split text before rest) :
    ahead text (place before f) = .ok (rest, place before f) := by
  have hsplit : splitAt? text (place before f).pos = some (before, rest) :=
    splitAt?_eq_some_iff.2 ⟨h.eq, rfl⟩
  rw [ahead, hsplit]

theorem current_apply (h : Split text before rest) :
    current text (place before f) = .ok (rest.head?, place before f) :=
  bind_of_ok (ahead_apply h)

theorem looksAt_apply (h : Split text before rest) (word : String) :
    looksAt text word (place before f) =
      .ok (word.toList.isPrefixOf rest, place before f) :=
  bind_of_ok (ahead_apply h)

/-- What was passed over is a slice of the text. -/
theorem slice_apply (h : Split text before (mid ++ rest)) :
    slice text (byteSize before) (place (before ++ mid) f) =
      .ok (mid, place (before ++ mid) f) := by
  have hslice : slice? text (byteSize before) (place (before ++ mid) f).pos = some mid :=
    slice?_eq_some_iff.2 ⟨before, rest, h.eq, rfl, rfl⟩
  rw [slice, hslice]

/-- The text is at its end if its size is reached, since every character has a size. -/
theorem atEnd_apply (h : Split text before rest) :
    atEnd text (place before f) = .ok (rest.isEmpty, place before f) := by
  have hsize : decide (byteSize text ≤ byteSize before) = rest.isEmpty := by
    rw [h.byteSize_eq]
    cases rest with
    | nil => exact decide_eq_true (Nat.le_refl _)
    | cons c t =>
      have hpos : 0 < byteSize (c :: t) := byteSize_pos (List.cons_ne_nil c t)
      exact decide_eq_false (by omega)
  rw [← hsize]
  rfl

/-- A text with a number for each of its lines has one for the next line. -/
theorem nextLine_apply (h : Split text before ('\n' :: rest)) :
    nextLine (place before f) = .ok ((), { place before f with line := 1 + before.count '\n' + 1 }) := by
  have hcount := h.numbered
  rw [h.eq, List.count_append, List.count_cons_self] at hcount
  exact if_pos (show 1 + before.count '\n' + 1 < UInt32.size by omega)

/-- The cursor goes on behind one character, and the line number with it if this is a line feed. -/
theorem advance_apply (h : Split text before (c :: rest)) :
    advance text (place before f) = .ok ((), place (before ++ [c]) f) := by
  unfold advance
  rw [bind_of_ok (current_apply h)]
  simp only [List.head?_cons]
  -- position and number are computed from what is behind the cursor, one character more now
  have hplace : place (before ++ [c]) f =
      ⟨byteSize before + c.utf8Size, 1 + before.count '\n' + [c].count '\n', f⟩ := by
    simp [place, Nat.add_assoc]
  rw [hplace]
  by_cases hc : c = '\n'
  · subst hc
    rw [if_pos rfl, bind_of_ok (nextLine_apply h)]
    rfl
  · rw [if_neg hc, List.count_singleton, if_neg (by simpa using hc)]
    rfl

/-- The cursor goes along a word, character by character. -/
theorem advance_word (h : Split text before (mid ++ rest)) :
    (mid.forM fun _ => advance text) (place before f) = .ok ((), place (before ++ mid) f) := by
  induction mid generalizing before with
  | nil =>
    rw [List.append_nil]
    rfl
  | cons c mid ih =>
    change (advance text >>= fun _ => mid.forM fun _ => advance text) (place before f) = _
    rw [bind_of_ok (advance_apply h), ih h.step, List.append_assoc]
    rfl

/-! ## Loops

A loop goes on as long as its step answers with something and the position has grown. It fails as
stalled if the position has not, or if it is behind the end of the text, so every use of `loop_more`
shows that neither is the case. -/

section Loop

variable {step : Scan (Option α)} {p p' : Place}

theorem loop_stop (h : step p = .ok (none, p')) : loop text step p = .ok ([], p') := by
  rw [loop, h]

theorem loop_error {e : Halt} (h : step p = .error e) : loop text step p = .error e := by
  rw [loop, h]

/-- A step that moved the cursor on within the text is followed by the next. -/
theorem loop_more {before' rest' : List Char} {g : Routine} {x : α}
    (h : step (place before f) = .ok (some x, place before' g)) (hat : Split text before' rest')
    (hpos : byteSize before < byteSize before') :
    loop text step (place before f) =
      match loop text step (place before' g) with
      | .error e => .error e
      | .ok (xs, q) => .ok (x :: xs, q) := by
  have hend : byteSize before' ≤ byteSize text := hat.byteSize_eq ▸ Nat.le_add_right _ _
  rw [loop, h]
  exact if_pos ⟨hpos, hend⟩

theorem discard_loop {xs : List α} (h : loop text step p = .ok (xs, p')) :
    (discard (loop text step : Scan (List α)) : Scan Unit) p = .ok ((), p') := by
  change (loop text step p >>= fun (_, q) => Except.ok ((), q)) = _
  rw [h]
  rfl

/-- A loop goes on behind a step that moved the cursor on and found nothing to return. -/
theorem exists_loop_more {step : Scan (Option Unit)} {before' rest' : List Char} {g : Routine}
    (h : step (place before f) = .ok (some (), place before' g)) (hat : Split text before' rest')
    (hpos : byteSize before < byteSize before')
    (hrest : ∃ xs, loop text step (place before' g) = .ok (xs, p')) :
    ∃ xs, loop text step (place before f) = .ok (xs, p') := by
  obtain ⟨xs, hxs⟩ := hrest
  exact ⟨() :: xs, by rw [loop_more h hat hpos, hxs]⟩

end Loop

theorem byteSize_lt_append (hmid : mid ≠ []) : byteSize before < byteSize (before ++ mid) := by
  have hpos := byteSize_pos hmid
  rw [byteSize_append]
  omega

/-! ## Runs

A run is passed over character by character and then taken as a slice. The loop ends at the first
character of another kind, so what it has passed over is the maximal run. -/

section Runs

variable {p : Char → Bool}

theorem pass_hit (h : Split text before (c :: rest)) (hc : p c = true) :
    pass text p (place before f) = .ok (some (), place (before ++ [c]) f) := by
  unfold pass
  rw [bind_of_ok (current_apply h)]
  simp only [List.head?_cons, hc, if_true]
  rw [bind_of_ok (advance_apply h)]
  rfl

/-- A character of another kind ends the run, and so does the end of the text. -/
theorem pass_miss (h : Split text before rest) (hrest : ∀ c, rest.head? = some c → p c = false) :
    pass text p (place before f) = .ok (none, place before f) := by
  unfold pass
  rw [bind_of_ok (current_apply h)]
  cases hhead : rest.head? with
  | none => rfl
  | some c =>
    simp only [hrest c hhead]
    rfl

/-- The loop along a run comes to its end. Induction on the text ahead. -/
theorem exists_loop_pass (h : Split text before rest) :
    ∃ xs, loop text (pass text p) (place before f) =
      .ok (xs, place (before ++ rest.takeWhile p) f) := by
  induction rest generalizing before with
  | nil =>
    rw [List.takeWhile_nil, List.append_nil]
    exact ⟨[], loop_stop (pass_miss h nofun)⟩
  | cons c rest ih =>
    by_cases hc : p c = true
    · have hmore := ih h.step
      rw [List.append_assoc] at hmore
      rw [List.takeWhile_cons_of_pos hc]
      exact exists_loop_more (pass_hit h hc) h.step (byteSize_lt_append (List.cons_ne_nil c [])) hmore
    · rw [List.takeWhile_cons_of_neg hc, List.append_nil]
      -- the run ends at `c`
      refine ⟨[], loop_stop (pass_miss h fun d hd => ?_)⟩
      obtain rfl : c = d := Option.some.inj hd
      exact Bool.eq_false_iff.2 hc

/-- The cursor passes over a maximal run. -/
theorem passRun_apply (h : Split text before rest) :
    passRun text p (place before f) = .ok ((), place (before ++ rest.takeWhile p) f) :=
  discard_loop (exists_loop_pass h).choose_spec

/-- A maximal run is taken as a slice of the text. -/
theorem takeRun_apply (h : Split text before rest) :
    takeRun text p (place before f) =
      .ok (rest.takeWhile p, place (before ++ rest.takeWhile p) f) := by
  have hrun : Split text before (rest.takeWhile p ++ rest.dropWhile p) := by
    rwa [List.takeWhile_append_dropWhile]
  have hstart : (get : Scan Place) (place before f) = .ok (place before f, place before f) := rfl
  unfold takeRun
  rw [bind_of_ok hstart, bind_of_ok (passRun_apply h)]
  exact slice_apply hrun

end Runs

/-! ## Blanks and comments

Blanks and comments may come in any order, and between two statements with line feeds among them.
`Passes` is the relation between what is passed over and what is not; a comment is one step of it,
up to the end of its line, as it is one step of the loop. -/

/-- Whether a character is one of the blanks to pass over. -/
def isSkipped (feeds : Bool) (c : Char) : Bool :=
  isBlank c && (feeds || c != '\n')

/-- The blanks and comments that are passed over before the rest of a text. A comment goes up to the
end of its line. -/
inductive Passes (feeds : Bool) : List Char → List Char → Prop
  | stop {rest : List Char} (hrest : ∀ c, rest.head? = some c → c ≠ ';' ∧ isSkipped feeds c = false) :
      Passes feeds [] rest
  | blank {c : Char} {mid rest : List Char} (hcomment : c ≠ ';') (hblank : isSkipped feeds c = true)
      (hmore : Passes feeds mid rest) : Passes feeds (c :: mid) rest
  | comment {cs mid rest : List Char} (hfeed : '\n' ∉ cs)
      (hends : Reader.EndsLine (mid ++ rest).head?) (hmore : Passes feeds mid rest) :
      Passes feeds (';' :: (cs ++ mid)) rest

/-- The first line of a text, without its end, and the text from there on. -/
theorem exists_line (cs : List Char) :
    ∃ body t, cs = body ++ t ∧ '\n' ∉ body ∧ Reader.EndsLine t.head? := by
  refine ⟨cs.takeWhile (· != '\n'), cs.dropWhile (· != '\n'),
    List.takeWhile_append_dropWhile.symm, ?_, ?_⟩
  · exact fun hmem => absurd (List.all_eq_true.1 List.all_takeWhile _ hmem) (by decide)
  · cases h : (cs.dropWhile (· != '\n')).head? with
    | none => rfl
    | some c =>
      have hc : (c != '\n') = false := Reader.not_of_head?_dropWhile (p := (· != '\n')) h
      exact beq_iff_eq.2 (bne_eq_false_iff_eq.1 hc)

/-- A comment is passed over up to the end of its line. -/
theorem takeWhile_comment {cs t : List Char} (hfeed : '\n' ∉ cs) (hends : Reader.EndsLine t.head?) :
    (cs ++ t).takeWhile (· != '\n') = cs := by
  have hrun : ∀ c ∈ cs, (c != '\n') = true := fun c hc => bne_iff_ne.2 fun heq => hfeed (heq ▸ hc)
  refine (Reader.takeWhile_run hrun fun c hc => ?_).1
  rw [hc] at hends
  exact bne_eq_false_iff_eq.2 (beq_iff_eq.1 hends)

/-- What is not passed over is neither a comment nor one of the blanks. -/
theorem Passes.head {feeds : Bool} (h : Passes feeds mid rest) (hc : rest.head? = some c) :
    c ≠ ';' ∧ isSkipped feeds c = false := by
  induction h with
  | stop hrest => exact hrest c hc
  | blank _ _ _ ih => exact ih hc
  | comment _ _ _ ih => exact ih hc

/-- In front of any text there is something to pass over, if only nothing, and it comes to an
end. -/
theorem exists_passes (feeds : Bool) (cs : List Char) :
    ∃ mid rest, cs = mid ++ rest ∧ Passes feeds mid rest := by
  -- a comment is passed over at once, so the induction is on the length
  induction hlength : cs.length using Nat.strongRecOn generalizing cs with
  | _ length ih =>
    cases cs with
    | nil => exact ⟨[], [], rfl, .stop nofun⟩
    | cons c t =>
      rw [List.length_cons] at hlength
      by_cases hc : c = ';'
      · obtain ⟨body, t', rfl, hbody, hends⟩ := exists_line t
        rw [List.length_append] at hlength
        obtain ⟨mid, rest, rfl, hpasses⟩ := ih t'.length (by omega) t' rfl
        refine ⟨';' :: (body ++ mid), rest, ?_, .comment hbody hends hpasses⟩
        rw [hc, List.cons_append, List.append_assoc]
      · by_cases hblank : isSkipped feeds c = true
        · obtain ⟨mid, rest, rfl, hpasses⟩ := ih t.length (by omega) t rfl
          exact ⟨c :: mid, rest, rfl, .blank hc hblank hpasses⟩
        · refine ⟨[], c :: t, rfl, .stop fun d hd => ?_⟩
          obtain rfl : c = d := Option.some.inj hd
          exact ⟨hc, Bool.eq_false_iff.2 hblank⟩

section Blanks

variable {feeds : Bool}

/-- The step finds nothing to pass over. -/
theorem blank_stop (h : Split text before rest)
    (hrest : ∀ c, rest.head? = some c → c ≠ ';' ∧ isSkipped feeds c = false) :
    blank text feeds (place before f) = .ok (none, place before f) := by
  unfold blank
  rw [bind_of_ok (current_apply h)]
  cases hhead : rest.head? with
  | none => rfl
  | some c =>
    obtain ⟨hcomment, hblank⟩ := hrest c hhead
    unfold isSkipped at hblank
    simp only [if_neg hcomment, hblank]
    rfl

theorem blank_blank (h : Split text before (c :: rest)) (hcomment : c ≠ ';')
    (hblank : isSkipped feeds c = true) :
    blank text feeds (place before f) = .ok (some (), place (before ++ [c]) f) := by
  unfold isSkipped at hblank
  unfold blank
  rw [bind_of_ok (current_apply h)]
  simp only [List.head?_cons, if_neg hcomment, hblank, if_true]
  rw [bind_of_ok (advance_apply h)]
  rfl

/-- The step passes over one comment. -/
theorem blank_comment {cs : List Char} (h : Split text before (';' :: (cs ++ rest)))
    (hfeed : '\n' ∉ cs) (hends : Reader.EndsLine rest.head?) :
    blank text feeds (place before f) = .ok (some (), place (before ++ (';' :: cs)) f) := by
  have hrun : (';' :: (cs ++ rest)).takeWhile (· != '\n') = ';' :: cs := by
    rw [List.takeWhile_cons_of_pos (by decide), takeWhile_comment hfeed hends]
  unfold blank
  rw [bind_of_ok (current_apply h)]
  simp only [List.head?_cons, if_true]
  rw [bind_of_ok (passRun_apply h), hrun]
  rfl

/-- The loop over blanks and comments comes to its end. Induction on what is passed over, one case
for each of its steps. -/
theorem exists_loop_blank (hpasses : Passes feeds mid rest) (h : Split text before (mid ++ rest)) :
    ∃ xs, loop text (blank text feeds) (place before f) = .ok (xs, place (before ++ mid) f) := by
  induction hpasses generalizing before with
  | stop hrest =>
    rw [List.append_nil]
    exact ⟨[], loop_stop (blank_stop h hrest)⟩
  | blank hcomment hblank _ ih =>
    have hmore := ih h.step
    rw [List.append_assoc] at hmore
    exact exists_loop_more (blank_blank h hcomment hblank) h.step
      (byteSize_lt_append (List.cons_ne_nil _ [])) hmore
  | @comment cs mid rest hfeed hends _ ih =>
    rw [List.cons_append, List.append_assoc] at h
    -- a comment is passed over in one step of the loop
    have hcomment : Split text before ((';' :: cs) ++ (mid ++ rest)) := h
    have hbehind := hcomment.move
    have hmore := ih hbehind
    rw [List.append_assoc] at hmore
    exact exists_loop_more (blank_comment h hfeed hends) hbehind
      (byteSize_lt_append (List.cons_ne_nil _ cs)) hmore

/-- The cursor passes over blanks and comments. -/
theorem skipBlanks_apply (hpasses : Passes feeds mid rest) (h : Split text before (mid ++ rest)) :
    skipBlanks text feeds (place before f) = .ok ((), place (before ++ mid) f) :=
  discard_loop (exists_loop_blank hpasses h).choose_spec

end Blanks

end Lowering.Scan
