import Lowering.Proofs.ReadInstr
import Lowering.Proofs.TextLines

/-!
# Lowering — the lines of a written routine

A written instruction is one line: its text has no line feed and no comment in it and no blank at
its end (`Reader.clean_trimmed_render`), so that splitting a text into lines and taking their
content gives the instructions back as they were written (`Text.lines_line`, `Text.content_line`).
To read such a line is to read the statement on it (`Routine.readLine_render`).
-/

namespace Lowering

namespace Text

/-- The text has no comment and no second line in it. -/
def Clean (cs : List Char) : Prop :=
  ∀ c ∈ cs, c ≠ ';' ∧ c ≠ '\n'

/-- The text has no blank at its end. -/
def Trimmed (cs : List Char) : Prop :=
  ∀ c, cs.getLast? = some c → isBlank c = false

instance (cs : List Char) : Decidable (Clean cs) :=
  List.decidableBAll _ cs

theorem Clean.append {a b : List Char} (ha : Clean a) (hb : Clean b) : Clean (a ++ b) := by
  intro c hc
  rcases List.mem_append.1 hc with h | h
  · exact ha c h
  · exact hb c h

/-- If neither of two texts ends in a blank, then they do not together. The second may be empty. -/
theorem Trimmed.append {a b : List Char} (ha : Trimmed a) (hb : Trimmed b) : Trimmed (a ++ b) := by
  intro c hc
  rw [List.getLast?_append] at hc
  cases hlast : b.getLast? with
  | none =>
    rw [hlast] at hc
    exact ha c hc
  | some d =>
    rw [hlast] at hc
    exact hb c (hlast.trans hc)

/-- Whatever stands before it, a text that ends in no blank ends the whole in no blank. -/
theorem Trimmed.append_of_ne_nil {a b : List Char} (hb : Trimmed b) (hne : b ≠ []) :
    Trimmed (a ++ b) := by
  intro c hc
  rw [List.getLast?_append, List.getLast?_eq_some_getLast hne] at hc
  exact hb c ((List.getLast?_eq_some_getLast hne).trans hc)

theorem Trimmed.trimEnd_eq {cs : List Char} (h : Trimmed cs) : trimEnd cs = cs := by
  unfold trimEnd
  cases hrev : cs.reverse with
  | nil => rw [List.reverse_eq_nil_iff.1 hrev]; rfl
  | cons c t =>
    have hlast : cs.getLast? = some c := by
      rw [List.getLast?_eq_head?_reverse, hrev]
      rfl
    rw [List.dropWhile_cons_of_neg (by simp [h c hlast]), ← hrev, List.reverse_reverse]

/-- A line without a comment and without blanks at its end is its own content. -/
theorem content_line {cs : List Char} (hclean : Clean cs) (htrim : Trimmed cs) :
    content (cs ++ ['\n']) = cs ++ ['\n'] := by
  have hline : IsLine cs (some '\n') (cs ++ ['\n']) := ⟨fun h => (hclean _ h).2 rfl, rfl, rfl⟩
  have htake : cs.takeWhile (· ≠ ';') = cs :=
    List.takeWhile_eq_self_iff.2 fun c hc => by simpa using (hclean c hc).1
  rw [hline.content_eq, said, htake, htrim.trimEnd_eq]
  rfl

/-- A text without line feeds is the first line of a text if a line feed comes behind it. -/
theorem lines_line {cs rest : List Char} (hclean : Clean cs) :
    lines (cs ++ '\n' :: rest) = (cs ++ ['\n']) :: lines rest :=
  lines_feed (fun h => (hclean _ h).2 rfl) rest

/-- The text has neither a blank nor the start of a comment in it. -/
def Plain (cs : List Char) : Prop :=
  ∀ c ∈ cs, isBlank c = false ∧ c ≠ ';'

instance (cs : List Char) : Decidable (Plain cs) :=
  List.decidableBAll _ cs

theorem Plain.clean {cs : List Char} (h : Plain cs) : Clean cs := by
  intro c hc
  refine ⟨(h c hc).2, ?_⟩
  rintro rfl
  exact absurd (h _ hc).1 (by decide)

theorem Plain.trimmed {cs : List Char} (h : Plain cs) : Trimmed cs :=
  fun c hc => (h c (List.mem_of_getLast? hc)).1

theorem Plain.append {a b : List Char} (ha : Plain a) (hb : Plain b) : Plain (a ++ b) := by
  intro c hc
  rcases List.mem_append.1 hc with h | h
  · exact ha c h
  · exact hb c h

/-- A text of characters of names is plain. -/
theorem plain_of_isNameChar {cs : List Char} (h : ∀ c ∈ cs, Reader.isNameChar c = true) :
    Plain cs := by
  intro c hc
  constructor
  · have hgap := Reader.isGap_of_isNameChar (h c hc)
    cases hblank : isBlank c with
    | false => rfl
    | true =>
      have hfeed : c = '\n' := by simpa [Reader.isGap, hblank] using hgap
      exact absurd (hfeed ▸ h c hc) (by decide)
  · rintro rfl
    exact absurd (h _ hc) (by decide)

end Text

namespace Reader

open Text

/-- The later items of a row have commas and blanks before them, and so none at their ends.
Induction on the items. -/
theorem clean_trimmed_commaTail {texts : List (List Char)} (h : ∀ t ∈ texts, Plain t ∧ t ≠ []) :
    Clean (commaTail texts) ∧ Trimmed (commaTail texts) := by
  induction texts with
  | nil => exact ⟨by simp [commaTail, Clean], by simp [commaTail, Trimmed]⟩
  | cons t ts ih =>
    obtain ⟨hclean, htrim⟩ := ih fun u hu => h u (by simp [hu])
    obtain ⟨hplain, hne⟩ := h t (by simp)
    have hcomma : Clean [',', ' '] := by simp [Clean]
    exact ⟨(hcomma.append hplain.clean).append hclean,
      (hplain.trimmed.append_of_ne_nil hne).append htrim⟩

/-- A row of plain texts is written without a comment and ends in none of its blanks. -/
theorem clean_trimmed_joined {texts : List (List Char)} (h : ∀ t ∈ texts, Plain t ∧ t ≠ []) :
    Clean (joined texts) ∧ Trimmed (joined texts) := by
  cases texts with
  | nil => exact ⟨by simp [joined, Clean], by simp [joined, Trimmed]⟩
  | cons t ts =>
    obtain ⟨hclean, htrim⟩ := clean_trimmed_commaTail fun u hu => h u (List.mem_cons_of_mem t hu)
    obtain ⟨hplain, _⟩ := h t (by simp)
    exact ⟨hplain.clean.append hclean, hplain.trimmed.append htrim⟩

/-- So are the accesses, each of which ends in its word. -/
theorem clean_trimmed_accesses (as : List Access) :
    Clean (String.join (as.map fun a => " :: " ++ a.text)).toList ∧
      Trimmed (String.join (as.map fun a => " :: " ++ a.text)).toList := by
  induction as with
  | nil => exact ⟨by simp [Clean], by simp [Trimmed]⟩
  | cons a as ih =>
    have hplain : Plain a.text.toList := by cases a <;> decide
    have hcolons : Clean " :: ".toList := by decide
    have hne : a.text.toList ≠ [] := by cases a <;> decide
    rw [List.map_cons, String.join_cons, String.toList_append, String.toList_append]
    exact ⟨(hcolons.append hplain.clean).append ih.1,
      (hplain.trimmed.append_of_ne_nil hne).append ih.2⟩

/-- A written instruction is one line without a comment and without a blank at its end. So reading
it as a line neither cuts anything off nor finds a second line in it. -/
theorem clean_trimmed_render (i : Instr) {texts : List String}
    (h : ∀ t ∈ texts, Plain t.toList ∧ t.toList ≠ []) :
    Clean (i.render texts).toList ∧ Trimmed (i.render texts).toList := by
  have hmap {l : List String} (hl : l ⊆ texts) : ∀ t ∈ l.map String.toList, Plain t ∧ t ≠ [] := by
    intro t ht
    obtain ⟨u, hu, rfl⟩ := List.mem_map.1 ht
    exact h u (hl hu)
  -- three parts, of which the outer ones may be empty; the name in the middle is not
  have hdefs : Clean (if (texts.take i.numDefs).isEmpty then ""
      else ", ".intercalate (texts.take i.numDefs) ++ " = ").toList := by
    split
    · simp [Clean]
    · rw [String.toList_append, toList_intercalate]
      have hequals : Clean " = ".toList := by decide
      exact (clean_trimmed_joined (hmap (List.take_subset _ _))).1.append hequals
  have huses : Clean (if (texts.drop i.numDefs).isEmpty then ""
        else " " ++ ", ".intercalate (texts.drop i.numDefs)).toList ∧
      Trimmed (if (texts.drop i.numDefs).isEmpty then ""
        else " " ++ ", ".intercalate (texts.drop i.numDefs)).toList := by
    split
    · exact ⟨by simp [Clean], by simp [Trimmed]⟩
    · next hne =>
      obtain ⟨hclean, htrim⟩ := clean_trimmed_joined (hmap (List.drop_subset i.numDefs texts))
      have hblank : Clean " ".toList := by decide
      rw [String.toList_append, toList_intercalate]
      refine ⟨hblank.append hclean, htrim.append_of_ne_nil ?_⟩
      cases hdrop : texts.drop i.numDefs with
      | nil => exact absurd (by rw [hdrop]; rfl) hne
      | cons t ts =>
        have ht := h t (List.drop_subset i.numDefs texts (by simp [hdrop]))
        simp [joined, ht.2]
  have hname : Plain i.opcode.name.toList ∧ i.opcode.name.toList ≠ [] := by
    cases i.opcode <;> exact ⟨plain_of_isNameChar (List.all_eq_true.1 (by decide)), by decide⟩
  obtain ⟨hclean, htrim⟩ := clean_trimmed_accesses i.accesses
  unfold Instr.render
  simp only [String.toList_append]
  exact ⟨((hdefs.append hname.1.clean).append huses.1).append hclean,
    ((hname.1.trimmed.append_of_ne_nil hname.2).append huses.2).append htrim⟩

/-- A line with an instruction on it is not taken for an empty one. -/
theorem opens_render (i : Instr) {texts : List String} (h : ∀ t ∈ texts, Opens t.toList) :
    Opens (i.render texts).toList := by
  unfold Instr.render
  simp only [String.toList_append, List.append_assoc]
  cases hdefs : texts.take i.numDefs with
  | nil =>
    -- without definitions the line opens with the name of the opcode
    have hname : Opens i.opcode.name.toList := by
      cases i.opcode <;> exact ⟨_, _, rfl, by decide, by decide, by decide⟩
    exact hname.append _
  | cons t ts =>
    have ht : Opens t.toList := h t (List.take_subset i.numDefs texts (by simp [hdefs]))
    rw [if_neg (by simp), String.toList_append, toList_intercalate]
    exact ((ht.append _).append _).append _

/-- An instruction with the line feed right behind it is all that its line holds. -/
theorem statement_of_instr {c : Cursor} {i : Instr} {types : TypeTable}
    (h : instr c = .ok (i, ⟨['\n'], types⟩)) : statement c = .ok (i, ⟨['\n'], types⟩) := by
  have hend : lineEnd ⟨['\n'], types⟩ = .ok ((), ⟨['\n'], types⟩) := lineEnd_eq_ok.2 ⟨rfl, rfl⟩
  exact bind_eq_ok.2 ⟨i, _, h, bind_eq_ok.2 ⟨(), _, hend, rfl⟩⟩

end Reader

namespace Routine

open Text Reader

/-- The line of a written instruction is read as the statement that stands on it. What remains to be
shown of written lines is therefore about statements, and no longer about blanks, comments and line
ends. -/
theorem readLine_render (f : Routine) (i : Instr) {texts : List String}
    (htexts : ∀ t ∈ texts, Plain t.toList ∧ Opens t.toList) :
    Clean (i.render texts).toList ∧
      f.readLine ((i.render texts).toList ++ ['\n']) =
        match statement ⟨(i.render texts).toList ++ ['\n'], f.types⟩ with
        | .ok (j, c) => .ok ⟨f.instrs ++ [j], c.types⟩
        | .error e => .error e := by
  obtain ⟨hclean, htrim⟩ := clean_trimmed_render i fun t ht => by
    obtain ⟨hplain, c, u, hu, _⟩ := htexts t ht
    exact ⟨hplain, hu ▸ List.cons_ne_nil c u⟩
  obtain ⟨c, t, hrender, hc, hfeed, _⟩ := opens_render i fun t ht => (htexts t ht).2
  refine ⟨hclean, ?_⟩
  -- nothing is cut off a clean line, and nothing of it is passed over
  have hcontent := content_line hclean htrim
  rw [hrender] at hcontent ⊢
  have hskip : (c :: t ++ ['\n']).dropWhile isGap = c :: t ++ ['\n'] :=
    dropWhile_gap gap_nil ⟨c, t ++ ['\n'], rfl, hc⟩
  have hmore : ¬ EndsLine ((c :: t ++ ['\n']).dropWhile isGap).head? := by
    rw [hskip]
    simpa [EndsLine] using hfeed
  have hline : Reader.line ⟨content (c :: t ++ ['\n']), f.types⟩ =
      (some <$> statement) ⟨c :: t ++ ['\n'], f.types⟩ := by
    rw [hcontent, line_statement hmore]
    simp only [hskip]
  rw [← bind_pure_comp, bind_apply] at hline
  cases hstatement : statement ⟨c :: t ++ ['\n'], f.types⟩ with
  | ok answer =>
    obtain ⟨j, rest, types⟩ := answer
    rw [hstatement] at hline
    exact readLine_eq_ok_iff.2 ⟨some j, rest, hline, rfl⟩
  | error e =>
    rw [hstatement] at hline
    exact readLine_eq_error_iff.2 hline

end Routine

end Lowering
