import Lowering.Proofs.OneLine
import Mathlib.Data.List.DropRight

/-!
# Lowering — the lines of a text

A text is split at its line feeds, each of which ends a line (`Text.lined_lines`), so a text that ends
in a line feed can be split on its own (`Text.lines_append`). What a line says is what is left of it
without its end, its comment and the blanks before these (`Text.IsLine.content_eq`), and it says
nothing if it is blank once its comment is removed (`Text.IsLine.vacant_iff`).
-/

namespace Lowering

/-! ## The lines of a text

A text is split behind every line feed, so its lines have their ends on them, and put together they
are the text again. Only the last of them may be without an end; a text that ends in a line feed has
no empty line behind it. -/

namespace Text

open Reader (EndsLine)

variable {a body line : List Char} {ls : List (List Char)} {eol : Option Char}

/-- Lines that end in their only line feed each, but that the last may have none. -/
inductive Lined : List (List Char) → Prop
  | nil : Lined []
  | last {body : List Char} (hbody : '\n' ∉ body) : Lined [body]
  | feed {body : List Char} {ls : List (List Char)} (hbody : '\n' ∉ body) (hrest : Lined ls) :
      Lined ((body ++ ['\n']) :: ls)

/-- The lines that a text is split into are lines. Induction on the text: a character that is no
line feed joins the first line of the rest. -/
theorem lined_lines (cs : List Char) : Lined (lines cs) := by
  induction cs with
  | nil => exact .nil
  | cons c cs ih =>
    rw [lines]
    by_cases hc : c = '\n'
    · rw [if_pos hc, hc]
      exact Lined.feed List.not_mem_nil ih
    · rw [if_neg hc]
      have hcons {body : List Char} (hbody : '\n' ∉ body) : '\n' ∉ c :: body :=
        List.not_mem_cons_of_ne_of_not_mem (Ne.symm hc) hbody
      -- `c` joins the first line of `cs`, whatever this ends with
      generalize lines cs = ls at ih
      cases ih with
      | nil => exact .last (hcons List.not_mem_nil)
      | last hbody => exact .last (hcons hbody)
      | feed hbody hrest => exact Lined.feed (hcons hbody) hrest

/-- One line: a text without a line feed, and what ends it. -/
structure IsLine (body : List Char) (eol : Option Char) (line : List Char) : Prop where
  not_mem : '\n' ∉ body
  ends : EndsLine eol
  eq : line = body ++ eol.toList

/-- Each of the lines is a text without a line feed and what ends it. -/
theorem Lined.isLine (h : Lined ls) (hline : line ∈ ls) : ∃ body eol, IsLine body eol line := by
  induction h with
  | nil => cases hline
  | last hbody =>
    rw [List.mem_singleton.1 hline]
    exact ⟨_, none, hbody, rfl, (List.append_nil _).symm⟩
  | feed hbody hrest ih =>
    obtain rfl | hmem := List.mem_cons.1 hline
    · exact ⟨_, some '\n', hbody, rfl, rfl⟩
    · exact ih hmem

theorem lines_cons_of_ne {c : Char} {cs : List Char} (hc : c ≠ '\n') (h : lines cs = line :: ls) :
    lines (c :: cs) = (c :: line) :: ls := by
  rw [lines, if_neg hc, h]

theorem exists_lines_cons (c : Char) (cs : List Char) : ∃ line ls, lines (c :: cs) = line :: ls := by
  cases h : lines (c :: cs) with
  | nil =>
    have hflat := flatten_lines (c :: cs)
    rw [h] at hflat
    cases hflat
  | cons line ls => exact ⟨line, ls, rfl⟩

/-- A text up to its first line feed is its first line. -/
theorem lines_feed (hbody : '\n' ∉ body) (rest : List Char) :
    lines (body ++ '\n' :: rest) = (body ++ ['\n']) :: lines rest := by
  induction body with
  | nil => rw [List.nil_append, lines, if_pos rfl, List.nil_append]
  | cons c body ih =>
    rw [List.mem_cons, not_or] at hbody
    rw [List.cons_append, lines_cons_of_ne (Ne.symm hbody.1) (ih hbody.2), List.cons_append]

/-- A text without a line feed is one line, unless it is empty. -/
theorem lines_last (hbody : '\n' ∉ body) (hne : body ≠ []) : lines body = [body] := by
  induction body with
  | nil => exact absurd rfl hne
  | cons c body ih =>
    rw [List.mem_cons, not_or] at hbody
    cases body with
    | nil => rw [lines, if_neg (Ne.symm hbody.1), lines]
    | cons d body =>
      exact lines_cons_of_ne (Ne.symm hbody.1) (ih hbody.2 (List.cons_ne_nil d body))

/-- Behind a line feed, the lines of a text are those that the rest has on its own. Their number is
that of the line feeds before, so that both parts of a text agree on the numbers of their lines. -/
theorem lines_append (ha : EndsLine a.getLast?) (b : List Char) :
    lines (a ++ b) = lines a ++ lines b ∧ (lines a).length = a.count '\n' := by
  induction a with
  | nil => exact ⟨rfl, rfl⟩
  | cons c a ih =>
    cases a with
    | nil =>
      have hc : c = '\n' := by simpa [EndsLine] using ha
      subst hc
      exact ⟨rfl, rfl⟩
    | cons d a =>
      rw [List.getLast?_cons_cons] at ha
      obtain ⟨happend, hcount⟩ := ih ha
      by_cases hc : c = '\n'
      · subst hc
        rw [List.cons_append, lines, if_pos rfl, lines, if_pos rfl, happend, List.count_cons_self,
          List.length_cons, hcount]
        exact ⟨rfl, rfl⟩
      · obtain ⟨line, ls, hlines⟩ := exists_lines_cons d a
        rw [hlines] at happend hcount
        rw [List.cons_append, lines_cons_of_ne hc happend, lines_cons_of_ne hc hlines,
          List.count_cons_of_ne hc, ← hcount]
        exact ⟨rfl, rfl⟩

/-! ## What a line says

The reader is given the line as the program does: up to its comment, without the blanks that this
leaves at the end, and with the line feed put back. Blanks before the line stay on it. -/

/-- The line is blank once its comment is removed. -/
def Vacant (line : List Char) : Prop :=
  ∀ c ∈ line.takeWhile (· ≠ ';'), isBlank c = true

/-- A line without its end, without its comment and without the blanks before these. -/
def said (body : List Char) : List Char :=
  trimEnd (body.takeWhile (· ≠ ';'))

/-- The same in terms of the library's way to drop from the end of a list. -/
theorem said_eq (body : List Char) : said body = (body.takeWhile (· ≠ ';')).rdropWhile isBlank :=
  rfl

theorem not_mem_said (h : '\n' ∉ body) : '\n' ∉ said body :=
  fun hmem => h ((List.takeWhile_prefix _).subset ((List.rdropWhile_prefix _ _).subset hmem))

/-- The content of a line is what it says and its end. -/
theorem IsLine.content_eq (h : IsLine body eol line) : content line = said body ++ eol.toList := by
  obtain ⟨hbody, hends, rfl⟩ := h
  -- the one line feed of a line is its last character
  have hfilter : (body ++ eol.toList).filter (· = '\n') = eol.toList := by
    rw [List.filter_append, List.filter_eq_nil_iff.2, List.nil_append]
    · obtain rfl | rfl := hends.eq_or <;> rfl
    · intro c hc
      have hne : c ≠ '\n' := fun heq => hbody (heq ▸ hc)
      simpa using hne
  have htake : (body ++ eol.toList).takeWhile (fun c => c ≠ ';' ∧ c ≠ '\n') =
      body.takeWhile (· ≠ ';') := by
    rw [Reader.takeWhile_line hends Option.head?_toList (by decide)]
    clear hfilter
    induction body with
    | nil => rfl
    | cons c body ih =>
      rw [List.mem_cons, not_or] at hbody
      by_cases hc : c = ';' <;> simp_all [Ne.symm hbody.1]
  rw [content, hfilter, htake, said]

/-- A line is vacant if it says nothing. -/
theorem IsLine.vacant_iff (h : IsLine body eol line) : Vacant line ↔ said body = [] := by
  obtain ⟨hbody, hends, rfl⟩ := h
  rw [said_eq, List.rdropWhile_eq_nil_iff, Vacant]
  -- a line feed is blank itself
  have heol : ∀ c ∈ eol.toList.takeWhile (· ≠ ';'), isBlank c = true := by
    intro c hc
    have hmem := (List.takeWhile_prefix _).subset hc
    obtain rfl | rfl := hends.eq_or
    · cases hmem
    · rw [List.mem_singleton.1 hmem]
      decide
  rw [List.takeWhile_append]
  split
  · next hall =>
    rw [List.forall_mem_append, (List.takeWhile_prefix _).eq_of_length hall]
    exact and_iff_left heol
  · rfl

/-- What a line says does not end in a blank, so it is not all blanks unless it is nothing. -/
theorem dropWhile_said_eq_nil_iff :
    (said body).dropWhile Reader.isGap = [] ↔ said body = [] := by
  refine ⟨fun h => ?_, fun h => by rw [h]; rfl⟩
  by_contra hne
  have hlast := List.rdropWhile_last_not isBlank _ hne
  have hgap := List.dropWhile_eq_nil_iff.1 h _ (List.getLast_mem hne)
  exact hlast (Bool.and_eq_true_iff.1 hgap).1

/-- What a line says begins with a character that is not blank, behind the blanks before it. -/
theorem IsLine.exists_said_cons (h : IsLine body eol line) (hvacant : ¬ Vacant line) :
    ∃ c left, (said body).dropWhile Reader.isGap = c :: left ∧ isBlank c = false ∧
      '\n' ∉ c :: left := by
  have hsaid : (said body).dropWhile Reader.isGap ≠ [] := by
    rwa [Ne, dropWhile_said_eq_nil_iff, ← h.vacant_iff]
  obtain ⟨c, left, hleft⟩ := List.exists_cons_of_ne_nil hsaid
  have hfeed : '\n' ∉ c :: left := hleft ▸ Reader.not_mem_dropWhile (not_mem_said h.not_mem)
  have hgap : Reader.isGap c = false :=
    Reader.not_of_head?_dropWhile (congrArg List.head? hleft)
  -- within a line a character that is no gap is no blank either
  have hne : c ≠ '\n' := (List.ne_of_not_mem_cons hfeed).symm
  refine ⟨c, left, hleft, ?_, hfeed⟩
  rw [Reader.isGap, bne_iff_ne.2 hne, Bool.and_true] at hgap
  exact hgap

end Text

end Lowering
