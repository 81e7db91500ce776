import Lowering.Proofs.Reading
import Lowering.Proofs.TypeNames
import Mathlib.Data.List.TakeWhile

/-!
# Lowering — reading stays on its line

A reader has a line before it with whatever text comes behind: what is left of the line, some blanks
before its end, the line feed or nothing, and the lines after it. The module shows that only the first
of these matters. A reader can tell neither whether there are blanks at the end of the line nor what
comes behind the line: it refuses all such texts for one cause, or gives one answer for all of them
and stops on the line, before the end of it (`Reader.OnLine`). The cause may show the character where
the reading stopped, and even that is the same, since blanks are passed over before anything is shown.

## How it is put together

* **`Reader.Local`** — the property of a reader, from every place on a line. It is stated once for the
  blanks and for the text behind, so that the readers are gone through only once.
* **sequences and choices** — `Local.bind`, `Local.map` and `Local.ite` inherit it.
* **tokens** — `skipGap`, `expect`, `identifier`, `takeRun`, `looksAt`, `atLineEnd` and `lineEnd` have
  it. A peek at the next character alone has not, since it may fall on one of the blanks.
* **`Reader.many_local`** — a repetition has it if each of its steps begins with a word, as they all do;
  the word that was taken makes the line shorter whatever comes at its end.
* **`Reader.line_local`, `Reader.statement_local`** — the reader of a line, operand by operand.

Two facts are read off: what a reader does does not depend on the text behind the line
(`Reader.Local.behind`), and it does not depend on the blanks at the end of the line
(`Routine.readLine_uncommented`).
-/

namespace Lowering.Reader

variable {α β : Type} {eol : Option Char} {left w s : List Char} {types : TypeTable}

/-! ## Readers that stay on their line

`Reader.OnLine` is what a reader does at one place, and `Reader.Local` is that at every place. Since
the answer, what is left and the new table are named before any text behind the line is, they cannot
depend on it. -/

/-- What a reader does with the rest of a line, uniformly in the blanks `w` before the end of the line
and in the text `s` from the end of the line on. It refuses all these texts for the same cause, or it
gives the same answer for all of them, leaves the same end of what was left, and has passed over some
of the blanks (`blanks w` are those that it has not). -/
inductive OnLine (x : Reader α) (eol : Option Char) (left : List Char) (types : TypeTable) : Prop
  | refuses (e : Refusal)
      (h : ∀ ⦃w s : List Char⦄, Gap w → s.head? = eol → x ⟨left ++ (w ++ s), types⟩ = .error e)
  | answers (a : α) (left' : List Char) (blanks : List Char → List Char) (types' : TypeTable)
      (hleft : left' <:+ left) (hblanks : ∀ w, blanks w <:+ w)
      (h : ∀ ⦃w s : List Char⦄, Gap w → s.head? = eol →
        x ⟨left ++ (w ++ s), types⟩ = .ok (a, ⟨left' ++ (blanks w ++ s), types'⟩))

/-- The reader never gets past the end of its line, looks behind it or sees the blanks before it. -/
def Local (x : Reader α) : Prop :=
  ∀ ⦃eol : Option Char⦄ ⦃left : List Char⦄ (types : TypeTable), EndsLine eol → '\n' ∉ left →
    OnLine x eol left types

theorem not_mem_of_suffix {left' : List Char} (hleft : '\n' ∉ left) (h : left' <:+ left) :
    '\n' ∉ left' :=
  fun hmem => hleft (h.subset hmem)

/-- A sequence of readers goes on where the first of them stopped: on the same line, with those of the
blanks that are left. -/
theorem OnLine.bind_answers {x : Reader α} {f : α → Reader β} {a : α} {left' : List Char}
    (blanks : List Char → List Char) {types' : TypeTable} (hleft : left' <:+ left)
    (hblanks : ∀ w, blanks w <:+ w)
    (hx : ∀ ⦃w s : List Char⦄, Gap w → s.head? = eol →
      x ⟨left ++ (w ++ s), types⟩ = .ok (a, ⟨left' ++ (blanks w ++ s), types'⟩))
    (hf : OnLine (f a) eol left' types') : OnLine (x >>= f) eol left types := by
  cases hf with
  | refuses e h =>
    refine .refuses e fun w s hw hs => ?_
    rw [bind_apply, hx hw hs]
    exact h (hw.of_suffix (hblanks w)) hs
  | answers b left'' blanks' types'' hleft' hblanks' h =>
    refine .answers b left'' (fun w => blanks' (blanks w)) types'' (hleft'.trans hleft)
      (fun w => (hblanks' _).trans (hblanks w)) fun w s hw hs => ?_
    rw [bind_apply, hx hw hs]
    exact h (hw.of_suffix (hblanks w)) hs

/-- A sequence of readers the first of which stays before the blanks: it only looks ahead, or takes
something that is known to be on the line. -/
theorem OnLine.bind_keeps {x : Reader α} {f : α → Reader β} {a : α} {left' : List Char}
    (hleft : left' <:+ left)
    (hx : ∀ ⦃w s : List Char⦄, Gap w → s.head? = eol →
      x ⟨left ++ (w ++ s), types⟩ = .ok (a, ⟨left' ++ (w ++ s), types⟩))
    (hf : OnLine (f a) eol left' types) : OnLine (x >>= f) eol left types :=
  .bind_answers (fun w => w) hleft (fun _ => List.suffix_rfl) hx hf

namespace Local

/-- A sequence of readers is local if each of them is. The second begins at what the first has left
of the line, with those of the blanks that the first has not passed over. -/
theorem bind {x : Reader α} {f : α → Reader β} (hx : Local x) (hf : ∀ a, Local (f a)) :
    Local (x >>= f) := by
  intro eol left types heol hleft
  cases hx types heol hleft with
  | refuses e h => exact .refuses e fun w s hw hs => bind_refused (h hw hs)
  | answers a left' blanks types' hleft' hblanks h =>
    exact .bind_answers blanks hleft' hblanks h (hf a types' heol (not_mem_of_suffix hleft hleft'))

/-- A value takes nothing, so it leaves the line and all blanks behind it. -/
theorem pure (a : α) : Local (pure a : Reader α) :=
  fun _ left types _ _ =>
    .answers a left (fun w => w) types List.suffix_rfl (fun _ => List.suffix_rfl) fun _ _ _ _ => rfl

theorem throw (e : Refusal) : Local (throw e : Reader α) :=
  fun _ _ _ _ _ => .refuses e fun _ _ _ _ => rfl

theorem map {x : Reader α} (hx : Local x) (f : α → β) : Local (f <$> x) := by
  rw [← bind_pure_comp]
  exact hx.bind fun a => .pure (f a)

/-- A choice is local if both branches are. What decides it must not come from the text, or only
from an answer of a local reader. -/
theorem ite {p : Prop} [Decidable p] {x y : Reader α} (hx : Local x) (hy : Local y) :
    Local (if p then x else y) := by
  split
  · exact hx
  · exact hy

/-- Without blanks at the end of the line: what comes behind it makes no difference, and after an answer
the end of the line is still to be read. -/
theorem behind {x : Reader α} (hx : Local x) (types : TypeTable) (heol : EndsLine eol)
    (hleft : '\n' ∉ left) :
    (∃ e, ∀ s : List Char, s.head? = eol → x ⟨left ++ s, types⟩ = .error e) ∨
      ∃ a left' types', '\n' ∉ left' ∧
        ∀ s : List Char, s.head? = eol → x ⟨left ++ s, types⟩ = .ok (a, ⟨left' ++ s, types'⟩) := by
  cases hx types heol hleft with
  | refuses e h => exact .inl ⟨e, fun s hs => h gap_nil hs⟩
  | answers a left' blanks types' hleft' hblanks h =>
    refine .inr ⟨a, left', types', not_mem_of_suffix hleft hleft', fun s hs => ?_⟩
    have hnil : blanks [] = [] := List.suffix_nil.1 (hblanks [])
    have hanswer := h gap_nil hs
    rwa [hnil] at hanswer

end Local

/-! ## Runs and words at the end of a line

A run of characters of one kind, or a word, ends at a line feed, and at a blank if its characters
are such as are written within a name. These are the facts that keep a reader from running on into
the blanks or into the next line. -/

/-- Those of the blanks `w` at the end of a line that are still there when the blanks on the line have
been passed over: none of them if nothing else was left of the line, and all of them otherwise. -/
def unskipped (left w : List Char) : List Char :=
  if left = [] then [] else w

/-- What is still there of the blanks is an end of them. -/
theorem unskipped_suffix (left w : List Char) : unskipped left w <:+ w := by
  unfold unskipped
  split
  · exact List.nil_suffix
  · exact List.suffix_rfl

/-- What comes next behind the blanks that were passed over is on the line, or it is the end of the
line. In neither case do the blanks at the end of the line show. -/
theorem head?_unskipped (hs : s.head? = eol) (left w : List Char) :
    (left ++ (unskipped left w ++ s)).head? = left.head?.or eol := by
  cases left with
  | nil => exact hs
  | cons c t => rfl

section Text

variable (heol : EndsLine eol) (hs : s.head? = eol)
include heol hs

theorem eq_feed {c : Char} (hc : s.head? = some c) : c = '\n' := by
  rw [← hs, hc] at heol
  exact beq_iff_eq.1 heol

/-- What is passed over of a line ends with the line, if a line feed ends it. -/
theorem dropWhile_line {p : Char → Bool} (hp : p '\n' = false) :
    (left ++ s).dropWhile p = left.dropWhile p ++ s :=
  (run_append fun _ hc => eq_feed heol hs hc ▸ hp).2

theorem takeWhile_line {p : Char → Bool} (hp : p '\n' = false) :
    (left ++ s).takeWhile p = left.takeWhile p :=
  (run_append fun _ hc => eq_feed heol hs hc ▸ hp).1

/-- What comes next behind the last word of a line is a blank or a line feed. -/
theorem head?_gap (hw : Gap w) {c : Char} (hc : (w ++ s).head? = some c) :
    isGap c = true ∨ c = '\n' := by
  cases w with
  | nil => exact .inr (eq_feed heol hs hc)
  | cons d w =>
    obtain rfl : d = c := Option.some.inj hc
    exact .inl (hw d List.mem_cons_self)

/-- A run of characters that may stand in a name ends with what is written on the line: it does not
go on into the blanks at the end, and not into the text behind. -/
theorem run_line (hw : Gap w) {p : Char → Bool} (hp : ∀ c, p c = true → isNameChar c = true)
    (left : List Char) :
    (left ++ (w ++ s)).takeWhile p = left.takeWhile p ∧
      (left ++ (w ++ s)).dropWhile p = left.dropWhile p ++ (w ++ s) := by
  refine run_append fun c hc => Bool.eq_false_iff.2 fun hpc => ?_
  have hname := isGap_of_isNameChar (hp c hpc)
  rcases head?_gap heol hs hw hc with hgap | rfl
  · exact Bool.false_ne_true (hname.symm.trans hgap)
  · exact absurd (hp _ hpc) (by decide)

/-- Blanks are passed over, those at the end of the line with them if nothing else is left. -/
theorem skip_line (hw : Gap w) (left : List Char) :
    (left ++ (w ++ s)).dropWhile isGap =
      left.dropWhile isGap ++ (unskipped (left.dropWhile isGap) w ++ s) := by
  cases hleft : left.dropWhile isGap with
  | nil =>
    rw [List.dropWhile_append_of_pos (List.dropWhile_eq_nil_iff.1 hleft),
      dropWhile_line heol hs isGap_feed, List.dropWhile_eq_nil_iff.2 hw]
    rfl
  | cons c t =>
    rw [List.dropWhile_append, hleft]
    rfl

end Text

theorem not_mem_dropWhile {p : Char → Bool} (h : '\n' ∉ left) : '\n' ∉ left.dropWhile p :=
  not_mem_of_suffix h (List.dropWhile_suffix p)

theorem not_mem_drop (h : '\n' ∉ left) (n : Nat) : '\n' ∉ left.drop n :=
  not_mem_of_suffix h (List.drop_suffix n left)

/-- A line without an end in it says something, or blanks are all that comes before its end. -/
theorem endsLine_iff (hleft : '\n' ∉ left) (heol : EndsLine eol) (hs : s.head? = eol) :
    EndsLine ((left ++ s).dropWhile isGap).head? ↔ left.dropWhile isGap = [] := by
  rw [dropWhile_line heol hs isGap_feed]
  cases hgap : left.dropWhile isGap with
  | nil => simpa [hs] using heol
  | cons c t =>
    have hc : c ≠ '\n' := by
      rintro rfl
      exact not_mem_dropWhile hleft (hgap ▸ List.mem_cons_self)
    simpa [EndsLine] using hc

/-- A word that a reader looks for: it is not empty, and neither blanks nor the end of a line are in
it. -/
def IsWord (text : String) : Prop :=
  0 < text.length ∧ ∀ c ∈ text.toList, isGap c = false ∧ c ≠ '\n'

instance (text : String) : Decidable (IsWord text) :=
  @instDecidableAnd _ _ (Nat.decLt _ _) (List.decidableBAll _ text.toList)

/-- A word comes next if it is on the line: it does not go on into the blanks at the end. A word of
blanks would, which is why `IsWord` excludes them. -/
theorem prefix_line {text : String} (htext : IsWord text) (heol : EndsLine eol) (hs : s.head? = eol)
    (hw : Gap w) (left : List Char) :
    text.toList <+: left ++ (w ++ s) ↔ text.toList <+: left :=
  prefix_append fun c hc hmem => by
    obtain ⟨hgap, hfeed⟩ := htext.2 c hmem
    rcases head?_gap heol hs hw hc with h | h
    · exact Bool.false_ne_true (hgap.symm.trans h)
    · exact hfeed h

/-! ## Tokens

Each token reader passes over blanks first. What it finds then is on the line, or it shows the end
of the line; and the character shown in a refusal is looked for behind the blanks, so that the
blanks at the end do not show there either. -/

/-- Blanks are passed over up to what comes next on the line, or up to its end. -/
theorem skipGap_local : Local skipGap := by
  intro eol left types heol _
  refine .answers () (left.dropWhile isGap) (unskipped (left.dropWhile isGap)) types
    (List.dropWhile_suffix _) (unskipped_suffix _) fun w s hw hs => ?_
  rw [skipGap_apply, skip_line heol hs hw]

/-- Whether a line is at its end is asked behind the blanks. -/
theorem atLineEnd_local : Local atLineEnd := by
  intro eol left types heol _
  refine .answers (((left.dropWhile isGap).head?.or eol).all (· == '\n')) (left.dropWhile isGap)
    (unskipped (left.dropWhile isGap)) types (List.dropWhile_suffix _) (unskipped_suffix _)
    fun w s hw hs => ?_
  rw [atLineEnd_apply]
  simp only [skip_line heol hs hw, head?_unskipped hs]

/-- A line with something left on it is refused with what is left, and this is on the line. -/
theorem lineEnd_local : Local lineEnd := by
  intro eol left types heol _
  cases hends : ((left.dropWhile isGap).head?.or eol).all (· == '\n') with
  | true =>
    refine .answers () (left.dropWhile isGap) (unskipped (left.dropWhile isGap)) types
      (List.dropWhile_suffix _) (unskipped_suffix _) fun w s hw hs => ?_
    rw [lineEnd_apply]
    simp only [skip_line heol hs hw, head?_unskipped hs, hends, if_true]
  | false =>
    -- the refusal shows the character behind the blanks
    refine .refuses (.expectedLineEnd ((left.dropWhile isGap).head?.or eol)) fun w s hw hs => ?_
    rw [lineEnd_apply]
    simp only [skip_line heol hs hw, head?_unskipped hs, hends, Bool.false_eq_true, if_false]

/-- A word is taken whatever comes at the end of the line, or it is not taken. Both answers are put
together to one equation, since a repetition needs them at every step. -/
theorem accept_line {text : String} (htext : IsWord text) (heol : EndsLine eol) (hs : s.head? = eol)
    (hw : Gap w) (left : List Char) (types : TypeTable) :
    accept text ⟨left ++ (w ++ s), types⟩ =
      if text.toList <+: left.dropWhile isGap then
        .ok (true, ⟨(left.dropWhile isGap).drop text.length ++
          (unskipped (left.dropWhile isGap) w ++ s), types⟩)
      else
        .ok (false, ⟨left.dropWhile isGap ++ (unskipped (left.dropWhile isGap) w ++ s), types⟩) := by
  have hgap : Gap (unskipped (left.dropWhile isGap) w) := hw.of_suffix (unskipped_suffix _ w)
  have hhead := prefix_line htext heol hs hgap (left.dropWhile isGap)
  rw [accept_apply]
  simp only [skip_line heol hs hw, hhead]
  by_cases hp : text.toList <+: left.dropWhile isGap
  · have hlength : text.length ≤ (left.dropWhile isGap).length := hp.length_le
    rw [if_pos hp, if_pos hp, List.drop_append_of_le_length hlength]
  · rw [if_neg hp, if_neg hp]

/-- A word that has to come next is taken, or the line is refused with what comes in its place. -/
theorem expect_local {text : String} (htext : IsWord text) : Local (expect text) := by
  intro eol left types heol _
  have hhead {w s : List Char} (hw : Gap w) (hs : s.head? = eol) :=
    prefix_line htext heol hs (hw.of_suffix (unskipped_suffix (left.dropWhile isGap) w))
      (left.dropWhile isGap)
  by_cases hp : text.toList <+: left.dropWhile isGap
  · have hlength : text.length ≤ (left.dropWhile isGap).length := hp.length_le
    refine .answers () ((left.dropWhile isGap).drop text.length)
      (unskipped (left.dropWhile isGap)) types
      ((List.drop_suffix _ _).trans (List.dropWhile_suffix _)) (unskipped_suffix _)
      fun w s hw hs => ?_
    rw [expect_apply]
    simp only [skip_line heol hs hw, if_pos ((hhead hw hs).2 hp),
      List.drop_append_of_le_length hlength]
  · -- the refusal shows the character behind the blanks
    refine .refuses (.expectedText text ((left.dropWhile isGap).head?.or eol)) fun w s hw hs => ?_
    rw [expect_apply]
    simp only [skip_line heol hs hw, if_neg (mt (hhead hw hs).1 hp), head?_unskipped hs]

/-- A name is a run behind the blanks. If it is empty, the line is refused with what comes in its
place. -/
theorem identifier_local : Local identifier := by
  intro eol left types heol _
  have hrun {w s : List Char} (hw : Gap w) (hs : s.head? = eol) :=
    run_line heol hs (hw.of_suffix (unskipped_suffix (left.dropWhile isGap) w))
      (p := isNameChar) (fun _ h => h) (left.dropWhile isGap)
  by_cases hname : (left.dropWhile isGap).takeWhile isNameChar = []
  · refine .refuses (.expectedIdentifier ((left.dropWhile isGap).head?.or eol)) fun w s hw hs => ?_
    rw [identifier_apply]
    simp only [skip_line heol hs hw, (hrun hw hs).1, if_pos hname, head?_unskipped hs]
  · refine .answers (String.ofList ((left.dropWhile isGap).takeWhile isNameChar))
      ((left.dropWhile isGap).dropWhile isNameChar) (unskipped (left.dropWhile isGap)) types
      ((List.dropWhile_suffix _).trans (List.dropWhile_suffix _)) (unskipped_suffix _)
      fun w s hw hs => ?_
    rw [identifier_apply]
    simp only [skip_line heol hs hw, (hrun hw hs).1, (hrun hw hs).2, if_neg hname]

/-- A run of characters that may stand in a name is taken where it is: no blanks are passed over,
and none are reached. -/
theorem takeRun_local {p : Char → Bool} (hp : ∀ c, p c = true → isNameChar c = true) :
    Local (takeRun p) := by
  intro eol left types heol _
  refine .answers (left.takeWhile p) (left.dropWhile p) (fun w => w) types (List.dropWhile_suffix p)
    (fun _ => List.suffix_rfl) fun w s hw hs => ?_
  obtain ⟨htake, hdrop⟩ := run_line heol hs hw hp left
  rw [takeRun_apply, htake, hdrop]

/-- Looking for a word takes nothing and sees nothing of the blanks at the end. -/
theorem looksAt_line {text : String} (htext : IsWord text) (heol : EndsLine eol)
    (hs : s.head? = eol) (hw : Gap w) :
    looksAt text ⟨left ++ (w ++ s), types⟩ =
      .ok (text.toList.isPrefixOf left, ⟨left ++ (w ++ s), types⟩) := by
  have hhead : text.toList.isPrefixOf (left ++ (w ++ s)) = text.toList.isPrefixOf left := by
    rw [Bool.eq_iff_iff, List.isPrefixOf_iff_prefix, List.isPrefixOf_iff_prefix,
      prefix_line htext heol hs hw]
  rw [looksAt_apply, hhead]

theorem looksAt_local {text : String} (htext : IsWord text) : Local (looksAt text) :=
  fun _ left types heol _ =>
    .answers _ left (fun w => w) types List.suffix_rfl (fun _ => List.suffix_rfl)
      fun _ _ hw hs => looksAt_line htext heol hs hw

/-- What is taken without being read has to be on the line. -/
theorem drop_line {n : Nat} (hn : n ≤ left.length) (s : List Char) :
    drop n ⟨left ++ s, types⟩ = .ok ((), ⟨left.drop n ++ s, types⟩) := by
  rw [drop_apply, List.drop_append_of_le_length hn]

/-- A word that was looked at is on the line, so a reader that takes it goes on there. Taking
characters is not local in itself: it has to be known that there are enough of them. -/
theorem OnLine.bind_drop {text : List Char} {f : Unit → Reader β} (hhead : text <+: left)
    (hf : OnLine (f ()) eol (left.drop text.length) types) :
    OnLine (drop text.length >>= f) eol left types :=
  .bind_keeps (List.drop_suffix _ left) (fun _ _ _ _ => drop_line hhead.length_le _) hf

/-! ## Repetition

A repetition is the only reader with a recursion of its own, and so the only one that needs an
induction. All repetitions of the grammar are of one form: a step begins with a word, a comma or a
double colon, and goes on with an item. -/

/-- A repetition whose steps each begin with a word goes on for as long as that word is taken. The word
makes the line shorter, so the guard of the repetition holds whatever comes at the end of the line: it
compares what is left with what was left, the blanks and the text behind counted on both sides. -/
theorem many_local {text : String} (htext : IsWord text) {item : Reader (Option α)}
    (hitem : Local item) :
    Local (many do if ← accept text then item else return none) := by
  intro eol left types heol hleft
  -- the induction is on what is left of the line, since the table of types changes on the way
  induction hn : left.length using Nat.strongRecOn generalizing left types with
  | _ n ih =>
    subst hn
    let left₁ := left.dropWhile isGap
    -- the first step: what the word leaves is shorter, and the induction hypothesis is about it
    by_cases hp : text.toList <+: left₁
    · have haccept {w s : List Char} (hw : Gap w) (hs : s.head? = eol) :
          (do if ← accept text then item else return none : Reader (Option α))
              ⟨left ++ (w ++ s), types⟩ =
            item ⟨left₁.drop text.length ++ (unskipped left₁ w ++ s), types⟩ := by
        rw [bind_apply, accept_line htext heol hs hw, if_pos hp]
        rfl
      have hdrop : left₁.drop text.length <:+ left :=
        (List.drop_suffix _ _).trans (List.dropWhile_suffix _)
      have hshort : (left₁.drop text.length).length < left.length := by
        have hword : text.length ≤ left₁.length := hp.length_le
        have hskip : left₁.length ≤ left.length := (List.dropWhile_suffix _).length_le
        have hpos := htext.1
        rw [List.length_drop]
        omega
      cases hitem types heol (not_mem_of_suffix hleft hdrop) with
      | refuses e h =>
        refine .refuses e fun w s hw hs => ?_
        rw [many, haccept hw hs, h (hw.of_suffix (unskipped_suffix left₁ w)) hs]
      | answers x? left₂ blanks types₂ hleft₂ hblanks h =>
        have hstep {w s : List Char} (hw : Gap w) (hs : s.head? = eol) :=
          (haccept hw hs).trans (h (hw.of_suffix (unskipped_suffix left₁ w)) hs)
        have hsuffix (w : List Char) : blanks (unskipped left₁ w) <:+ w :=
          (hblanks _).trans (unskipped_suffix left₁ w)
        cases x? with
        | none =>
          refine .answers [] left₂ (fun w => blanks (unskipped left₁ w)) types₂
            (hleft₂.trans hdrop) hsuffix fun w s hw hs => ?_
          rw [many, hstep hw hs]
        | some x =>
          have hlt : left₂.length < left.length := Nat.lt_of_le_of_lt hleft₂.length_le hshort
          have hguard (w s : List Char) :
              (left₂ ++ (blanks (unskipped left₁ w) ++ s)).length < (left ++ (w ++ s)).length := by
            have hle := (hsuffix w).length_le
            simp only [List.length_append]
            omega
          cases ih left₂.length hlt types₂ (not_mem_of_suffix hleft (hleft₂.trans hdrop)) rfl with
          | refuses e hrest =>
            refine .refuses e fun w s hw hs => ?_
            rw [many, hstep hw hs]
            simp only [hguard, if_true, hrest (hw.of_suffix (hsuffix w)) hs]
          | answers xs left₃ blanks₃ types₃ hleft₃ hblanks₃ hrest =>
            refine .answers (x :: xs) left₃ (fun w => blanks₃ (blanks (unskipped left₁ w))) types₃
              (hleft₃.trans (hleft₂.trans hdrop)) (fun w => (hblanks₃ _).trans (hsuffix w))
              fun w s hw hs => ?_
            rw [many, hstep hw hs]
            simp only [hguard, if_true, hrest (hw.of_suffix (hsuffix w)) hs]
    · -- the word does not come next, and the repetition ends with the blanks passed over
      refine .answers [] left₁ (unskipped left₁) types (List.dropWhile_suffix _)
        (unskipped_suffix _) fun w s hw hs => ?_
      rw [many, bind_apply, accept_line htext heol hs hw, if_neg hp]
      rfl

/-- A list of items is an item and a repetition of a comma and an item. -/
theorem commaList_local {item : Reader α} (hitem : Local item) : Local (commaList item) :=
  hitem.bind fun _ => (many_local (by decide) (hitem.map some)).bind fun _ => .pure _

/-- A contract is kept or broken without a look at the text. -/
theorem keep_local (x : Except Fault α) : Local (keep x) := by
  cases x with
  | ok a => exact .pure a
  | error f => exact .throw _

/-! ## Operands

From here on the readers are those of the grammar. Each is local because it is put together from
local readers, so these proofs follow the definitions from top to bottom. -/

/-- A declaration looks at the table of types alone. -/
theorem declare_local (r : Reg) (ty : RegType) : Local (declare r ty) := by
  intro eol left types _ _
  cases hdecl : types.declare? r ty with
  | none => exact .refuses (.conflictingType ty r) fun w s _ _ => by simp only [declare, hdecl]
  | some types' =>
    exact .answers () left (fun w => w) types' List.suffix_rfl (fun _ => List.suffix_rfl)
      fun w s _ _ => by simp only [declare, hdecl]

/-- The type of a register begins with a single colon and is a name behind it. -/
theorem typeSuffix_local (r : Reg) : Local (typeSuffix r) := by
  intro eol left types heol hleft
  refine .bind_keeps List.suffix_rfl (fun _ _ hw hs => looksAt_line (by decide) heol hs hw)
    (.bind_keeps List.suffix_rfl (fun _ _ hw hs => looksAt_line (by decide) heol hs hw) ?_)
  split
  · next hcolon =>
    -- the colon that was looked at is on the line, so taking it does not leave the line
    have hhead : ":".toList <+: left :=
      List.isPrefixOf_iff_prefix.1 (Bool.and_eq_true_iff.1 hcolon).1
    refine .bind_drop hhead ?_
    refine identifier_local.bind (fun name => ?_) types heol (not_mem_drop hleft 1)
    cases RegType.ofName? name with
    | none => exact .throw _
    | some ty => exact declare_local r ty
  · exact Local.pure () types heol hleft

/-- A register is a percent sign, digits, and the type if there is one. -/
theorem reg_local : Local reg := by
  refine (expect_local (by decide)).bind fun _ =>
    (takeRun_local fun _ => isNameChar_of_isDigit).bind fun digits => ?_
  cases Text.decimal32? digits with
  | none => exact .throw _
  | some n => exact (typeSuffix_local ⟨n⟩).bind fun _ => .pure _

theorem sign_local : Local sign := by
  intro eol left types heol hleft
  refine .bind_keeps List.suffix_rfl (fun _ _ hw hs => looksAt_line (by decide) heol hs hw) ?_
  split
  · next hminus =>
    have hhead : "-".toList <+: left := List.isPrefixOf_iff_prefix.1 hminus
    exact .bind_drop hhead (Local.pure true types heol (not_mem_drop hleft 1))
  · exact Local.pure false types heol hleft

/-- The digits of an immediate are letters and digits, so they end before the blanks; what they mean is
decided without the cursor. -/
theorem immediate_local : Local immediate := by
  have hname (c : Char) (h : c.isAlphanum = true) : isNameChar c = true := by simp [isNameChar, h]
  refine sign_local.bind fun negative => (takeRun_local hname).bind fun digits => ?_
  cases "0x".toList.isPrefixOf? digits with
  | none =>
    simp only
    generalize (Text.decimal? digits).bind _ = value
    cases value with
    | none => exact .throw _
    | some v => exact .pure v
  | some hex =>
    simp only
    generalize (Text.hexadecimal? hex).bind _ = value
    cases value with
    | none => exact .throw _
    | some v => exact .ite (keep_local _) (.pure v)

/-- The kind of an operand is told by the character behind the blanks. -/
theorem operand_local : Local operand := by
  intro eol left types heol hleft
  have hfeed : '\n' ∉ left.dropWhile isGap := not_mem_dropWhile hleft
  -- the blanks are passed over and the next character looked at in one step
  have hnext ⦃w s : List Char⦄ (hw : Gap w) (hs : s.head? = eol) :
      (do skipGap; peek : Reader (Option Char)) ⟨left ++ (w ++ s), types⟩ =
        .ok ((left.dropWhile isGap).head?.or eol,
          ⟨left.dropWhile isGap ++ (unskipped (left.dropWhile isGap) w ++ s), types⟩) := by
    rw [bind_apply, skipGap_apply, skip_line heol hs hw]
    simp only [peek_apply, head?_unskipped hs]
  unfold operand
  rw [← bind_assoc]
  refine .bind_answers _ (List.dropWhile_suffix isGap) (unskipped_suffix _) hnext ?_
  cases hhead : (left.dropWhile isGap).head?.or eol with
  | none => exact Local.throw _ types heol hfeed
  | some c =>
    -- a register, a symbol or an immediate, by the first character
    simp only
    split
    · exact reg_local.map _ types heol hfeed
    · split
      · next hat =>
        have hlead : ['@'] <+: left.dropWhile isGap := by
          cases hleft' : left.dropWhile isGap with
          | nil =>
            rw [hleft', List.head?_nil, Option.none_or, hat] at hhead
            obtain rfl | rfl := heol.eq_or <;> cases hhead
          | cons c' t =>
            rw [hleft', List.head?_cons, Option.some_or, hat] at hhead
            exact ⟨t, congrArg (· :: t) (Option.some.inj hhead).symm⟩
        exact .bind_drop hlead (identifier_local.map _ types heol (not_mem_drop hfeed 1))
      · split
        · exact immediate_local.map _ types heol hfeed
        · exact Local.throw _ types heol hfeed

/-! ## Instructions

The last part of the grammar, up to the reader of a whole line. -/

theorem accesses_local : Local (many access?) := by
  refine many_local (by decide) (identifier_local.bind fun word => ?_)
  cases Access.ofText? word with
  | none => exact .throw _
  | some a => exact .pure _

/-- Whether there is a register in a slot is asked of the instruction that was read. -/
theorem checkRegister_local (i : Instr) (k : Nat) : Local (checkRegister i k) :=
  .ite (.throw _) ((keep_local _).bind fun _ => .ite (.pure ()) (.throw _))

/-- A shape is checked slot by slot. Induction on the slots. -/
theorem checkShape_local (i : Instr) (n : Nat) (slots : List Nat) :
    Local (checkShape i n slots) := by
  refine .ite ?_ (.throw _)
  induction slots with
  | nil => exact .pure ()
  | cons k slots ih => exact (checkRegister_local i k).bind fun _ => ih

/-- The checks of a finished instruction do not look at the text at all. -/
theorem checkMappable_local (i : Instr) : Local (checkMappable i) := by
  unfold checkMappable
  split
  · exact checkShape_local _ _ _
  · exact checkShape_local _ _ _
  · exact checkShape_local _ _ _
  · exact .pure ()

theorem defs_local : Local defs := by
  refine skipGap_local.bind fun _ => (looksAt_local (by decide)).bind fun _ => .ite ?_ (.pure [])
  exact (commaList_local reg_local).bind fun _ => (expect_local (by decide)).bind fun _ => .pure _

theorem uses_local : Local uses :=
  atLineEnd_local.bind fun _ => (looksAt_local (by decide)).bind fun _ =>
    .ite (.pure []) (commaList_local operand_local)

theorem opcode_local : Local opcode := by
  refine identifier_local.bind fun name => ?_
  cases Opcode.ofName? name with
  | none => exact .throw _
  | some op => exact .pure op

/-- An instruction is its definitions, its opcode, its uses and its accesses. -/
theorem instr_local : Local instr :=
  defs_local.bind fun _ => opcode_local.bind fun _ => uses_local.bind fun _ =>
    (keep_local _).bind fun _ => accesses_local.bind fun _ =>
      (checkMappable_local _).bind fun _ => .pure _

/-- A statement is an instruction, and the end of its line. -/
theorem statement_local : Local statement :=
  instr_local.bind fun _ => lineEnd_local.bind fun _ => .pure _

/-- Blanks at the end of a line and the text behind it make no difference to what the line holds,
nor to why it is refused. This is what the module comes to; the statement reader has it as well, for
a cursor that knows already that a line is not blank. -/
theorem line_local : Local line :=
  atLineEnd_local.bind fun _ => .ite (.pure none)
    (instr_local.bind fun _ => lineEnd_local.bind fun _ => .pure _)

end Lowering.Reader
