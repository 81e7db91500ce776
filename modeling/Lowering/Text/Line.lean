import Lowering.Text.Blank

/-!
# Lowering — lines

A text is the sequence of its lines, each with the line feed that ends it; the last line may have
none. Nothing is lost in splitting (`flatten_lines`). A semicolon starts a comment, and the content
of a line is what is left without the comment and the blanks before it.
-/

namespace Lowering.Text

/-- The lines of a text. Only a line feed ends a line. -/
def lines : List Char → List (List Char)
  | [] => []
  | c :: cs =>
    if c = '\n' then [c] :: lines cs
    else
      match lines cs with
      | [] => [[c]]
      | line :: rest => (c :: line) :: rest

/-- Nothing is lost or added when a text is split into its lines. -/
theorem flatten_lines (cs : List Char) : (lines cs).flatten = cs := by
  fun_induction lines cs <;> simp_all

/-- The line without its comment and without the blanks at its end, but with its line feed. -/
def content (line : List Char) : List Char :=
  trimEnd (line.takeWhile fun c => c ≠ ';' ∧ c ≠ '\n') ++ line.filter (· = '\n')

end Lowering.Text
