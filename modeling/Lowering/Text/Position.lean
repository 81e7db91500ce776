/-!
# Lowering — byte positions in a text

A position counts the bytes of the UTF-8 encoding before it. A text can be split only between two
characters (`splitAt?_eq_some_iff`), so not every number up to its size is the position of a split,
and a slice has to begin and to end at one that is (`slice?_eq_some_iff`).
-/

namespace Lowering.Text

/-- The size of a text in bytes. It is the position of the end of the text, and the position behind
any beginning of it. -/
def byteSize : List Char → Nat
  | [] => 0
  | c :: cs => c.utf8Size + byteSize cs

@[simp] theorem byteSize_nil : byteSize [] = 0 := rfl

@[simp] theorem byteSize_cons (c : Char) (cs : List Char) :
    byteSize (c :: cs) = c.utf8Size + byteSize cs := rfl

/-- Positions add up: behind a text, a longer text goes on at its size. -/
@[simp] theorem byteSize_append (a b : List Char) :
    byteSize (a ++ b) = byteSize a + byteSize b := by
  induction a with
  | nil => rw [List.nil_append, byteSize_nil, Nat.zero_add]
  | cons c a ih => rw [List.cons_append, byteSize_cons, byteSize_cons, ih, Nat.add_assoc]

/-- Every text but the empty one has a byte, so a loop that takes something moves on. -/
theorem byteSize_pos {cs : List Char} (h : cs ≠ []) : 0 < byteSize cs := by
  obtain ⟨c, t, rfl⟩ := List.exists_cons_of_ne_nil h
  have hc := c.utf8Size_pos
  rw [byteSize_cons]
  omega

/-- The two parts of a text at a position; none if this is inside of a character or past the end. -/
def splitAt? : List Char → Nat → Option (List Char × List Char)
  | cs, 0 => some ([], cs)
  | [], _ + 1 => none
  | c :: cs, n + 1 =>
    if c.utf8Size ≤ n + 1 then
      (splitAt? cs (n + 1 - c.utf8Size)).map fun (a, b) => (c :: a, b)
    else none

/-- What stands from one position to another. -/
def slice? (cs : List Char) (start stop : Nat) : Option (List Char) := do
  let (upTo, _) ← splitAt? cs stop
  let (_, between) ← splitAt? upTo start
  return between

/-- A text can be split wherever it is put together from two, at the size of the first. Induction on
the first. -/
theorem splitAt?_append (a b : List Char) : splitAt? (a ++ b) (byteSize a) = some (a, b) := by
  induction a with
  | nil =>
    rw [List.nil_append, byteSize_nil]
    cases b <;> rfl
  | cons c a ih =>
    have hpos : byteSize (c :: a) ≠ 0 := Nat.pos_iff_ne_zero.1 (byteSize_pos (List.cons_ne_nil c a))
    obtain ⟨n, hn⟩ := Nat.exists_eq_add_one_of_ne_zero hpos
    have hsize : n + 1 = c.utf8Size + byteSize a := hn ▸ byteSize_cons c a
    have hrest : n + 1 - c.utf8Size = byteSize a := by omega
    rw [hn, List.cons_append, splitAt?, if_pos (by omega), hrest, ih]
    rfl

/-- A text is split between two characters, with the position as the size of the first part. So a
position determines the split, and a split the position. -/
theorem splitAt?_eq_some_iff {cs a b : List Char} {n : Nat} :
    splitAt? cs n = some (a, b) ↔ cs = a ++ b ∧ n = byteSize a := by
  constructor
  · intro h
    -- the split goes along the text and uses up the position character by character
    fun_induction splitAt? cs n generalizing a b with
    | case1 cs =>
      cases h
      exact ⟨rfl, rfl⟩
    | case2 n => cases h
    | case3 c cs n hle ih =>
      obtain ⟨⟨a', b'⟩, hsplit, heq⟩ := Option.map_eq_some_iff.1 h
      cases heq
      obtain ⟨rfl, hn⟩ := ih hsplit
      refine ⟨rfl, ?_⟩
      rw [byteSize_cons]
      omega
    | case4 c cs n hgt => cases h
  · rintro ⟨rfl, rfl⟩
    exact splitAt?_append a b

/-- A slice begins and ends between two characters of the text, and does not end before it begins. -/
theorem slice?_eq_some_iff {cs between : List Char} {start stop : Nat} :
    slice? cs start stop = some between ↔
      ∃ a b, cs = a ++ (between ++ b) ∧ start = byteSize a ∧ stop = byteSize (a ++ between) := by
  unfold slice?
  constructor
  · intro h
    obtain ⟨⟨upTo, b⟩, hstop, h⟩ := Option.bind_eq_some_iff.1 h
    obtain ⟨⟨a, between'⟩, hstart, h⟩ := Option.bind_eq_some_iff.1 h
    cases h
    obtain ⟨rfl, rfl⟩ := splitAt?_eq_some_iff.1 hstop
    obtain ⟨rfl, rfl⟩ := splitAt?_eq_some_iff.1 hstart
    exact ⟨a, b, List.append_assoc _ _ _, rfl, rfl⟩
  · rintro ⟨a, b, rfl, rfl, rfl⟩
    rw [← List.append_assoc, splitAt?_append]
    exact Option.bind_eq_some_iff.2 ⟨(a ++ between, b), rfl,
      Option.bind_eq_some_iff.2 ⟨(a, between), splitAt?_append a between, rfl⟩⟩

/-- A slice in the middle of a character, and one that would end before it begins. -/
example : slice? "aé;".toList 1 3 = some ['é'] ∧ slice? "aé;".toList 2 3 = none ∧
    slice? "aé;".toList 3 1 = none := by decide +kernel

end Lowering.Text
