import Lowering.Routine.Parser

/-!
# Lowering — laws of reading

What the readers do to a cursor, one law for each, so that nothing above this module opens the
monadic code of a reader.

* `bind_eq_ok` takes an accepted sequence of readers apart.
* `accept_apply`, `expect_apply`, `identifier_apply`, `atLineEnd_apply` and `lineEnd_eq_ok` give the
  tokens: blanks are passed over first, then the rest of the line decides.
* `Repeats` says of a repetition what each of its steps did, and `many_eq_ok_iff` that a repetition
  is accepted exactly if its steps can be chained in this way.
-/

namespace Lowering

namespace Reader

variable {α β : Type}

/-! ## Sequences

Readers are chained with a cursor that they hand on. These laws say of a chain that is accepted, or
refused, what its parts did. -/

/-- An accepted sequence of two readers: the second starts where the first stopped. -/
theorem bind_eq_ok {x : Reader α} {f : α → Reader β} {c c' : Cursor} {b : β} :
    (x >>= f) c = .ok (b, c') ↔ ∃ a m, x c = .ok (a, m) ∧ f a m = .ok (b, c') := by
  rw [bind_apply]
  cases hx : x c with
  | error e => simp
  | ok am =>
    obtain ⟨a, m⟩ := am
    refine ⟨fun h => ⟨a, m, rfl, h⟩, ?_⟩
    rintro ⟨a', m', heq, h⟩
    cases heq
    exact h

/-- What is read may be changed afterwards without a difference to the text that is taken. -/
theorem map_eq_ok {x : Reader α} {f : α → β} {c c' : Cursor} {b : β} :
    (f <$> x) c = .ok (b, c') ↔ ∃ a, x c = .ok (a, c') ∧ f a = b := by
  rw [← bind_pure_comp, bind_eq_ok]
  constructor
  · rintro ⟨a, m, hx, hf⟩
    cases hf
    exact ⟨a, hx, rfl⟩
  · rintro ⟨a, hx, rfl⟩
    exact ⟨a, c', hx, rfl⟩

/-- A sequence is refused with its first part. -/
theorem bind_refused {x : Reader α} {f : α → Reader β} {c : Cursor} {e : Refusal}
    (h : x c = .error e) : (x >>= f) c = .error e := by
  rw [bind_apply, h]

/-- A broken contract of reading is no accepted result. -/
theorem keep_eq_ok {x : Except Fault α} {c c' : Cursor} {a : α} :
    keep x c = .ok (a, c') ↔ x = .ok a ∧ c' = c := by
  cases x with
  | error f => simp [keep, throw_apply]
  | ok b => simp [keep, pure_apply, eq_comm]

/-! ## Runs and words

Everything that readers do to a text comes down to three questions: which run of characters it
begins with, what stands behind the run, and whether it begins with a word. -/

section Runs

variable {left t : List Char}

/-- A run of characters of one kind ends before a text that begins with another. -/
theorem run_append {p : Char → Bool} (ht : ∀ c, t.head? = some c → p c = false) :
    (left ++ t).takeWhile p = left.takeWhile p ∧ (left ++ t).dropWhile p = left.dropWhile p ++ t := by
  induction left with
  | nil =>
    cases t with
    | nil => exact ⟨rfl, rfl⟩
    | cons c t => simp [ht c rfl]
  | cons c left ih => by_cases hc : p c = true <;> simp [hc, ih]

/-- A maximal run ends where the characters of its kind end. -/
theorem takeWhile_run {p : Char → Bool} {run rest : List Char} (hrun : ∀ c ∈ run, p c = true)
    (hrest : ∀ c, rest.head? = some c → p c = false) :
    (run ++ rest).takeWhile p = run ∧ (run ++ rest).dropWhile p = rest := by
  rw [List.takeWhile_append_of_pos hrun, List.dropWhile_append_of_pos hrun]
  cases rest with
  | nil => simp
  | cons c t =>
    have hc : ¬ p c = true := by simp [hrest c rfl]
    rw [List.takeWhile_cons_of_neg hc, List.dropWhile_cons_of_neg hc, List.append_nil]
    exact ⟨rfl, rfl⟩

/-- What stands behind a maximal run does not belong to it. -/
theorem not_of_head?_dropWhile {p : Char → Bool} {c : Char}
    (h : (left.dropWhile p).head? = some c) : p c = false := by
  have hhead := List.head?_dropWhile_not p left
  rw [h] at hhead
  simpa using hhead

/-- A word does not go on into a text that begins with none of its characters. -/
theorem prefix_append {word : List Char} (ht : ∀ c, t.head? = some c → c ∉ word) :
    word <+: left ++ t ↔ word <+: left := by
  induction word generalizing left with
  | nil => simp
  | cons c word ih =>
    cases left with
    | nil =>
      cases t with
      | nil => simp
      | cons d t =>
        -- here the word would have to go on into `t`
        have hd : d ≠ c := fun h => ht d rfl (h ▸ List.mem_cons_self)
        simp [List.cons_prefix_cons, hd.symm]
    | cons d left =>
      have hword : ∀ c', t.head? = some c' → c' ∉ word :=
        fun c' hc' hmem => ht c' hc' (List.mem_cons_of_mem c hmem)
      rw [List.cons_append, List.cons_prefix_cons, List.cons_prefix_cons, ih hword]

end Runs

/-! ## Blanks within a line

Blanks are passed over before every token, up to the end of the line but not across it: a line feed
is no blank here. -/

/-- A run of blanks within a line. -/
def Gap (g : List Char) : Prop :=
  ∀ c ∈ g, isGap c = true

theorem gap_nil : Gap [] := by simp [Gap]

theorem gap_space : Gap [' '] := by simp [Gap, show isGap ' ' = true by decide]

theorem Gap.of_suffix {w w' : List Char} (hw : Gap w) (h : w' <:+ w) : Gap w' :=
  fun c hc => hw c (h.subset hc)

theorem isGap_feed : isGap '\n' = false := by decide

/-- No character of a name is a blank. The characters of names are ASCII, where the blanks are few,
so this is arithmetic on the code of the character. -/
theorem isGap_of_isNameChar {c : Char} (h : isNameChar c = true) : isGap c = false := by
  unfold isNameChar Char.isAlphanum at h
  delta Char.isAlpha Char.isUpper Char.isLower at h
  simp only [Char.isDigit, Bool.or_eq_true, Bool.and_eq_true, decide_eq_true_eq, beq_iff_eq,
    UInt32.le_iff_toNat_le, ge_iff_le] at h
  -- the codes of letters, then those of digits, and two more
  change ((((65 ≤ c.toNat ∧ c.toNat ≤ 90) ∨ (97 ≤ c.toNat ∧ c.toNat ≤ 122)) ∨
    (48 ≤ c.toNat ∧ c.toNat ≤ 57)) ∨ c = '_') ∨ c = '.' at h
  rcases h with (h | rfl) | rfl
  · have hblank : Text.isBlank c = false := by
      simp only [Text.isBlank, Text.within, Text.blankRanges, List.any_cons, List.any_nil,
        Bool.or_eq_false_iff, Bool.and_eq_false_iff, decide_eq_false_iff_not, and_true]
      omega
    simp [isGap, hblank]
  · decide
  · decide

/-! ## Tokens

Each of these says what a token reader does on every cursor, in terms of the line without its first
blanks. They are equations and not implications, so that they serve to show both that a text is read
and that it is refused. -/

/-- Looking for a word passes over blanks in either case, and over the word if it is there. -/
theorem accept_apply (text : String) (c : Cursor) :
    accept text c =
      if text.toList <+: c.rest.dropWhile isGap then
        .ok (true, { c with rest := (c.rest.dropWhile isGap).drop text.length })
      else .ok (false, { c with rest := c.rest.dropWhile isGap }) := by
  unfold accept
  rw [bind_apply, skipGap_apply]
  simp only [bind_apply, looksAt_apply]
  -- the test is computed, so it is decided as the proposition is
  by_cases h : text.toList <+: c.rest.dropWhile isGap
  · rw [if_pos h, if_pos (List.isPrefixOf_iff_prefix.2 h)]
    rfl
  · rw [if_neg h, if_neg (fun hp => h (List.isPrefixOf_iff_prefix.1 hp))]
    rfl

/-- A word that has to come next is taken, and otherwise the text is refused with the character in
its place. -/
theorem expect_apply (text : String) (c : Cursor) :
    expect text c =
      if text.toList <+: c.rest.dropWhile isGap then
        .ok ((), { c with rest := (c.rest.dropWhile isGap).drop text.length })
      else .error (.expectedText text (c.rest.dropWhile isGap).head?) := by
  unfold expect
  rw [bind_apply, accept_apply]
  by_cases h : text.toList <+: c.rest.dropWhile isGap
  · rw [if_pos h, if_pos h]
    rfl
  · rw [if_neg h, if_neg h]
    rfl

/-- A name is the longest run of its characters, and a text without one is refused with the
character in its place. -/
theorem identifier_apply (c : Cursor) :
    identifier c =
      if (c.rest.dropWhile isGap).takeWhile isNameChar = [] then
        .error (.expectedIdentifier (c.rest.dropWhile isGap).head?)
      else
        .ok (String.ofList ((c.rest.dropWhile isGap).takeWhile isNameChar),
          { c with rest := (c.rest.dropWhile isGap).dropWhile isNameChar }) := by
  unfold identifier
  rw [bind_apply, skipGap_apply]
  simp only [bind_apply, takeRun_apply]
  -- the run is empty at the end of the text or before a character of no name
  cases c.rest.dropWhile isGap with
  | nil => rfl
  | cons d s =>
    by_cases hd : isNameChar d = true
    · simp [hd, pure_apply]
    · simp [hd, bind_apply, peek_apply, throw_apply]

/-- The line is at its end if nothing or a line feed stands behind the blanks. -/
theorem atLineEnd_apply (c : Cursor) :
    atLineEnd c =
      .ok ((c.rest.dropWhile isGap).head?.all (· == '\n'),
        { c with rest := c.rest.dropWhile isGap }) := by
  unfold atLineEnd
  rw [bind_apply, skipGap_apply]
  simp only [bind_apply, peek_apply, pure_apply]
  cases (c.rest.dropWhile isGap).head? <;> simp

/-- The end of the line has to come next, and otherwise the text is refused with the character in
its place. -/
theorem lineEnd_apply (c : Cursor) :
    lineEnd c =
      if (c.rest.dropWhile isGap).head?.all (· == '\n') then
        .ok ((), { c with rest := c.rest.dropWhile isGap })
      else .error (.expectedLineEnd (c.rest.dropWhile isGap).head?) := by
  unfold lineEnd
  rw [bind_apply, atLineEnd_apply]
  cases (c.rest.dropWhile isGap).head?.all (· == '\n') with
  | true => rfl
  | false => rfl

/-- The end of a line is accepted exactly where the line is at its end, and is not taken. -/
theorem lineEnd_eq_ok {c c' : Cursor} :
    lineEnd c = .ok ((), c') ↔
      (c.rest.dropWhile isGap).head?.all (· == '\n') = true ∧
        c' = { c with rest := c.rest.dropWhile isGap } := by
  rw [lineEnd_apply]
  split
  · next h => simp [h, eq_comm]
  · next h => simp [h]

/-- A name is not empty and is made of name characters only. -/
theorem identifier_eq_ok {c c' : Cursor} {name : String} (h : identifier c = .ok (name, c')) :
    name ≠ "" ∧ (∀ ch ∈ name.toList, isNameChar ch = true) ∧ c'.types = c.types := by
  rw [identifier_apply] at h
  split at h
  · cases h
  · next hne =>
    cases h
    refine ⟨fun he => hne (String.ofList_eq_empty_iff.1 he), fun ch hch => ?_, rfl⟩
    rw [String.toList_ofList] at hch
    exact List.all_eq_true.1 List.all_takeWhile ch hch

theorem accept_eq_ok {text : String} {c c' : Cursor} {b : Bool} (h : accept text c = .ok (b, c')) :
    c'.types = c.types := by
  rw [accept_apply] at h
  split at h <;> cases h <;> rfl

theorem expect_eq_ok {text : String} {c c' : Cursor} (h : expect text c = .ok ((), c')) :
    c'.types = c.types := by
  rw [expect_apply] at h
  split at h <;> cases h
  rfl

/-! ## Repetition

The only recursion of the readers. It goes on as long as its step finds something and the rest of
the line gets shorter, and `Repeats` is the relation that this recursion computes: proofs about
repetitions are inductions on it, one case for the last step and one for any other. -/

/-- The steps of a repetition: each found an item and shortened the line, and after the last of them
nothing more was found. -/
inductive Repeats (step : Reader (Option α)) : Cursor → List α → Cursor → Prop where
  | stop {c c' : Cursor} (hstep : step c = .ok (none, c')) : Repeats step c [] c'
  | more {c m c' : Cursor} {x : α} {xs : List α} (hstep : step c = .ok (some x, m))
      (hshort : m.rest.length < c.rest.length) (hrest : Repeats step m xs c') :
      Repeats step c (x :: xs) c'

/-- Steps that can be chained are what the repetition does. Induction on the chain. -/
theorem many_of_repeats {step : Reader (Option α)} {c c' : Cursor} {xs : List α}
    (h : Repeats step c xs c') : many step c = .ok (xs, c') := by
  induction h with
  | stop hstep => rw [many, hstep]
  | more hstep hshort _ ih =>
    rw [many, hstep]
    simp only [hshort, if_true, ih]

/-- What the repetition does is a chain of steps. Induction on the recursion. -/
theorem repeats_of_many {step : Reader (Option α)} {c c' : Cursor} {xs : List α}
    (h : many step c = .ok (xs, c')) : Repeats step c xs c' := by
  -- the loop is accepted where nothing is found, or an item and a shorter line
  fun_induction many step c generalizing xs with
  | case1 c e hstep => cases h
  | case2 c m hstep =>
    cases h
    exact .stop hstep
  | case3 c x m hstep hshort e hrest ih => cases h
  | case4 c x m hstep hshort ys m' hrest ih =>
    cases h
    exact .more hstep hshort (ih hrest)
  | case5 c x m hstep hshort => cases h

/-- A repetition is accepted exactly if its steps can be chained. -/
theorem many_eq_ok_iff {step : Reader (Option α)} {c c' : Cursor} {xs : List α} :
    many step c = .ok (xs, c') ↔ Repeats step c xs c' :=
  ⟨repeats_of_many, many_of_repeats⟩

/-- The step of a list after its first item: an item if a comma comes before it. -/
def commaStep (item : Reader α) : Reader (Option α) := do
  if ← accept "," then some <$> item else return none

/-- A list of items is an item and a repetition of items with a comma before them. -/
theorem commaList_eq_ok {item : Reader α} {c c' : Cursor} {xs : List α} :
    commaList item c = .ok (xs, c') ↔
      ∃ x more m, xs = x :: more ∧ item c = .ok (x, m) ∧ Repeats (commaStep item) m more c' := by
  rw [show commaList item = (item >>= fun first => many (commaStep item) >>= fun more =>
    pure (first :: more)) from rfl, bind_eq_ok]
  constructor
  · rintro ⟨x, m, hitem, htail⟩
    obtain ⟨more, m', hmany, hpure⟩ := bind_eq_ok.1 htail
    cases hpure
    exact ⟨x, more, m, rfl, hitem, many_eq_ok_iff.1 hmany⟩
  · rintro ⟨x, more, m, rfl, hitem, hrep⟩
    exact ⟨x, m, hitem, bind_eq_ok.2 ⟨more, c', many_eq_ok_iff.2 hrep, rfl⟩⟩

/-! ## Lines

A line is blank or it holds an instruction, and which of the two is found out behind its first
blanks. -/

/-- What a line ends in: a line feed, or the end of the text. -/
def EndsLine (eol : Option Char) : Prop :=
  eol.all (· == '\n') = true

/-- A line ends where the text does, or in a line feed. -/
theorem EndsLine.eq_or {eol : Option Char} (h : EndsLine eol) : eol = none ∨ eol = some '\n' := by
  cases eol with
  | none => exact .inl rfl
  | some c => exact .inr (congrArg some (beq_iff_eq.1 h))

/-- An instruction and nothing behind it on its line. -/
def statement : Reader Instr := do
  let i ← instr
  lineEnd
  return i

/-- An accepted line is read to its end. -/
theorem ends_of_statement {c c' : Cursor} {i : Instr} (h : statement c = .ok (i, c')) :
    EndsLine c'.rest.head? := by
  obtain ⟨j, m, _, h⟩ := bind_eq_ok.1 h
  obtain ⟨_, m', hend, h⟩ := bind_eq_ok.1 h
  cases h
  obtain ⟨hends, rfl⟩ := lineEnd_eq_ok.1 hend
  exact hends

theorem line_blank {c : Cursor} (h : EndsLine (c.rest.dropWhile isGap).head?) :
    line c = .ok (none, { c with rest := c.rest.dropWhile isGap }) := by
  unfold line
  unfold EndsLine at h
  rw [bind_apply, atLineEnd_apply]
  simp only [h, if_true]
  rfl

/-- A line that is not blank is read as a statement, from behind its first blanks on. -/
theorem line_statement {c : Cursor} (h : ¬ EndsLine (c.rest.dropWhile isGap).head?) :
    line c = (some <$> statement) { c with rest := c.rest.dropWhile isGap } := by
  unfold line
  unfold EndsLine at h
  rw [bind_apply, atLineEnd_apply]
  simp only [h, Bool.false_eq_true, if_false, statement, map_bind, map_pure]

end Reader

namespace Routine

variable {f g : Routine} {line : List Char}

/-- A line is accepted into a routine if it is read with the types of the routine. What is read of
it is put to the instructions, and the types are those that it left. -/
theorem readLine_eq_ok_iff :
    f.readLine line = .ok g ↔ ∃ i? rest, Reader.line ⟨Text.content line, f.types⟩ =
      .ok (i?, ⟨rest, g.types⟩) ∧ g.instrs = f.instrs ++ i?.toList := by
  unfold readLine
  cases hline : Reader.line ⟨Text.content line, f.types⟩ with
  | error e =>
    simp only [StateT.run, hline]
    exact ⟨nofun, nofun⟩
  | ok answer =>
    obtain ⟨i?, rest, types⟩ := answer
    simp only [StateT.run, hline]
    constructor
    · intro h
      cases h
      exact ⟨i?, rest, rfl, rfl⟩
    · rintro ⟨i?', rest', heq, hinstrs⟩
      cases heq
      obtain ⟨instrs, types⟩ := g
      cases hinstrs
      rfl

/-- A line is refused as its reader refuses it. -/
theorem readLine_eq_error_iff {e : Refusal} :
    f.readLine line = .error e ↔ Reader.line ⟨Text.content line, f.types⟩ = .error e := by
  unfold readLine
  cases hline : Reader.line ⟨Text.content line, f.types⟩ with
  | error e' =>
    simp only [StateT.run, hline]
    exact ⟨fun h => by cases h; rfl, fun h => by cases h; rfl⟩
  | ok answer =>
    simp only [StateT.run, hline]
    exact ⟨nofun, nofun⟩

end Routine

end Lowering
