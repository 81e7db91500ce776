import Lowering.Proofs.ReadBack
import Mathlib.Data.Nat.Digits.Defs

/-!
# Lowering — what the text of an immediate means

A literal is a sign or none, the mark of its radix and digits of that radix, in either case and as
many as one likes. Its value is that of the digits by their positions, and negative behind a minus
sign. `Text.Literal` says this without a reader.

* `Text.decimal?_eq_some_iff`, `Text.hexadecimal?_eq_some_iff` — the numerals of a radix are read,
  as their values.
* `Reader.signedValue?_literal`, `Reader.exists_literal_of_signedValue?` — what a sign and a run of
  letters and digits stand for.
* `Reader.operand_literal` — a literal is read as its value if that has 64 bits, the least one in
  hexadecimal digits excepted, and what is no literal is refused as it is written.
* `Reader.operand_least_hexadecimal` — the exception, which is read in decimal digits.
-/

namespace Lowering

namespace Text

/-! ## Numerals by the positions of their digits

The value of a numeral is what its digits say by their positions. The readers come to it from the
left, digit by digit, and look a digit up by its code point; that both are the same is shown
here. -/

/-- How a numeral is written: in ten digits, or in sixteen behind a mark. -/
inductive Radix where
  | decimal
  | hexadecimal
deriving DecidableEq

namespace Radix

/-- The digits in the order of their values. -/
def digits : Radix → List Char
  | decimal => "0123456789".toList
  | hexadecimal => "0123456789abcdef".toList

/-- What is written before the digits of a numeral. -/
def mark : Radix → List Char
  | decimal => []
  | hexadecimal => ['0', 'x']

/-- How many digits there are. -/
def base (r : Radix) : Nat :=
  r.digits.length

/-- The character is a digit, in either case. -/
def IsDigit (r : Radix) (c : Char) : Prop :=
  c.toLower ∈ r.digits

instance (r : Radix) (c : Char) : Decidable (r.IsDigit c) :=
  inferInstanceAs (Decidable (_ ∈ r.digits))

/-- The value of a digit: its place among the digits. -/
def digitValue (r : Radix) (c : Char) : Nat :=
  r.digits.idxOf c.toLower

/-- The text is a numeral: not empty, and of digits alone. -/
def IsNumeral (r : Radix) (cs : List Char) : Prop :=
  cs ≠ [] ∧ ∀ c ∈ cs, r.IsDigit c

instance (r : Radix) (cs : List Char) : Decidable (r.IsNumeral cs) :=
  haveI := List.decidableBAll r.IsDigit cs
  inferInstanceAs (Decidable (_ ∧ _))

/-- The value of a numeral, the last digit counting least. -/
def numeralValue (r : Radix) (cs : List Char) : Nat :=
  Nat.ofDigits r.base (cs.reverse.map r.digitValue)

variable {r : Radix} {c : Char} {cs : List Char}

/-- A numeral can be read from its first digit on. -/
theorem numeralValue_eq_foldl (r : Radix) (cs : List Char) :
    r.numeralValue cs = cs.foldl (fun n c => r.base * n + r.digitValue c) 0 := by
  unfold numeralValue
  rw [Nat.ofDigits_eq_foldr, List.foldr_map, List.foldr_reverse]
  simp only [Nat.cast_id, Nat.add_comm]

/-- What holds of the ASCII characters and of all that come after them holds of all. -/
theorem forall_char {P : Char → Prop} (hascii : ∀ n < 128, P (Char.ofNat n))
    (hbeyond : ∀ c : Char, 128 ≤ c.toNat → P c) (c : Char) : P c := by
  by_cases hc : c.toNat < 128
  · rw [← Char.ofNat_toNat c]
    exact hascii _ hc
  · exact hbeyond c (Nat.le_of_not_lt hc)

/-- No character beyond ASCII is a digit, also not by way of its lower case. -/
theorem not_isDigit_beyond (hc : 128 ≤ c.toNat) : ¬r.IsDigit c := by
  have hlower : c.toLower = c := by
    refine dif_neg fun h => ?_
    have hle : c.toNat ≤ 90 := UInt32.le_iff_toNat_le.1 h.2
    omega
  have hdigits : r.digits.all (fun d => d.toNat < 128) = true := by cases r <;> decide
  intro hmem
  unfold IsDigit at hmem
  rw [hlower] at hmem
  have hlt : c.toNat < 128 := of_decide_eq_true (List.all_eq_true.1 hdigits c hmem)
  omega

/-- A digit is one of the ASCII characters. -/
theorem forall_digit {P : Char → Prop}
    (hascii : ∀ n < 128, r.IsDigit (Char.ofNat n) → P (Char.ofNat n)) (h : r.IsDigit c) : P c := by
  refine forall_char (P := fun c => r.IsDigit c → P c) hascii ?_ c h
  intro c hc hdigit
  exact absurd hdigit (not_isDigit_beyond hc)

/-- The decimal digits are those that a reader takes for digits. -/
theorem isDigit_decimal_iff : decimal.IsDigit c ↔ c.isDigit = true := by
  refine forall_char (P := fun c => decimal.IsDigit c ↔ c.isDigit = true) (by decide +kernel) ?_ c
  intro c hc
  refine iff_of_false (not_isDigit_beyond hc) fun hdigit => ?_
  simp only [Char.isDigit, Bool.and_eq_true, decide_eq_true_eq, UInt32.le_iff_toNat_le] at hdigit
  have hle : c.toNat ≤ 57 := hdigit.2
  omega

/-- The value of a decimal digit is how far its code point is from that of zero. -/
theorem digitValue_decimal (h : decimal.IsDigit c) :
    decimal.digitValue c = c.toNat - '0'.toNat :=
  forall_digit (P := fun c => decimal.digitValue c = c.toNat - '0'.toNat) (by decide +kernel) h

/-- A digit is a letter or a digit to a reader, so a run of these does not end inside a numeral. -/
theorem isAlphanum_of_isDigit (h : r.IsDigit c) : c.isAlphanum = true :=
  forall_digit (P := fun c => c.isAlphanum = true) (by cases r <;> decide +kernel) h

/-- A character is looked up as a hexadecimal digit if it is one, as its value. The ASCII characters
are tried one by one, and beyond them there is none. -/
theorem hexDigit?_eq (c : Char) :
    hexDigit? c =
      if hexadecimal.IsDigit c then some (hexadecimal.digitValue c) else none := by
  refine forall_char (P := fun c => hexDigit? c =
      if hexadecimal.IsDigit c then some (hexadecimal.digitValue c) else none)
    (by decide +kernel) ?_ c
  intro c hc
  rw [if_neg (not_isDigit_beyond hc)]
  -- all digits are ASCII characters, and this one is beyond them
  have hnone (m : Nat) (hm : m < 128) : ¬c.val.toNat ≤ m := by
    have hval : c.val.toNat = c.toNat := rfl
    omega
  unfold hexDigit?
  rw [if_neg, if_neg, if_neg]
  · exact fun h => hnone 70 (by decide) (UInt32.le_iff_toNat_le.1 h.2)
  · exact fun h => hnone 102 (by decide) (UInt32.le_iff_toNat_le.1 h.2)
  · exact fun h => not_isDigit_beyond hc (isDigit_decimal_iff.2 h)

end Radix

open Radix

variable {cs : List Char} {n m : Nat}

/-- A decimal numeral is read as its value, and nothing else is read. There is no bound on its
length or on its value: what fits is decided where the number is made an immediate. -/
theorem decimal?_eq_some_iff :
    decimal? cs = some m ↔ decimal.IsNumeral cs ∧ decimal.numeralValue cs = m := by
  have hnumeral : (cs ≠ [] ∧ cs.all Char.isDigit = true) ↔ decimal.IsNumeral cs := by
    simp only [IsNumeral, List.all_eq_true, isDigit_decimal_iff]
  unfold decimal?
  by_cases h : decimal.IsNumeral cs
  · -- both read from the first digit on, and take the same value for each
    have hvalue : Nat.ofDigitChars 10 cs 0 = decimal.numeralValue cs := by
      rw [numeralValue_eq_foldl]
      refine List.foldl_ext _ _ 0 fun n c hc => ?_
      rw [digitValue_decimal (h.2 c hc)]
      rfl
    rw [if_pos (hnumeral.2 h), hvalue, Option.some_inj]
    exact (and_iff_right h).symm
  · rw [if_neg fun hcs => h (hnumeral.1 hcs)]
    exact iff_of_false nofun fun hm => h hm.1

/-- Hexadecimal digits are read one by one, each after the number read so far. -/
theorem hexFrom?_eq_some_iff :
    hexFrom? n cs = some m ↔ (∀ c ∈ cs, hexadecimal.IsDigit c) ∧
      cs.foldl (fun n c => hexadecimal.base * n + hexadecimal.digitValue c) n = m := by
  induction cs generalizing n with
  | nil => simp [hexFrom?]
  | cons c cs ih =>
    unfold hexFrom?
    -- the first character decides: no digit, no numeral
    rw [hexDigit?_eq]
    by_cases hc : hexadecimal.IsDigit c
    · rw [if_pos hc]
      refine ih.trans ?_
      simp only [List.mem_cons, forall_eq_or_imp, hc, true_and, List.foldl_cons]
      rfl
    · rw [if_neg hc]
      exact iff_of_false nofun fun h => hc (h.1 c List.mem_cons_self)

/-- A hexadecimal numeral is read as its value, and nothing else is read. -/
theorem hexadecimal?_eq_some_iff :
    hexadecimal? cs = some m ↔ hexadecimal.IsNumeral cs ∧ hexadecimal.numeralValue cs = m := by
  cases cs with
  | nil => exact iff_of_false nofun fun h => h.1.1 rfl
  | cons c cs =>
    rw [numeralValue_eq_foldl]
    exact hexFrom?_eq_some_iff.trans (and_congr_left' (and_iff_right (List.cons_ne_nil c cs)).symm)

/-! ## Literals

A literal is taken apart into its sign, its radix and its digits. Any choice of these makes a
literal, so a statement about all literals is one about these three. -/

/-- An immediate as it is written. -/
structure Literal where
  negative : Bool
  radix : Radix
  digits : List Char
  numeral : radix.IsNumeral digits

namespace Literal

/-- The literal without its sign. -/
def run (n : Literal) : List Char :=
  n.radix.mark ++ n.digits

/-- The literal as it stands in a text. -/
def text (n : Literal) : List Char :=
  Reader.signText n.negative ++ n.run

/-- Behind its sign a literal has letters and digits only, so a reader takes all of it as one
run. -/
theorem isAlphanum_of_mem_run (n : Literal) : ∀ c ∈ n.run, c.isAlphanum = true := by
  intro c hc
  have hmark : n.radix.mark.all Char.isAlphanum = true := by cases n.radix <;> decide
  obtain hmem | hmem := List.mem_append.1 hc
  · exact List.all_eq_true.1 hmark c hmem
  · exact isAlphanum_of_isDigit (n.numeral.2 c hmem)

/-- Behind its sign a literal begins with a decimal digit, whatever its radix. This is what sets an
immediate apart from the other operands. -/
theorem exists_run_eq_cons (n : Literal) : ∃ d t, n.run = d :: t ∧ d.isDigit = true := by
  obtain ⟨negative, radix, digits, hne, hdigits⟩ := n
  cases radix with
  | hexadecimal => exact ⟨'0', 'x' :: digits, rfl, by decide⟩
  | decimal =>
    cases digits with
    | nil => exact absurd rfl hne
    | cons d t => exact ⟨d, t, rfl, isDigit_decimal_iff.1 (hdigits d List.mem_cons_self)⟩

/-- The value without the sign. -/
def magnitude (n : Literal) : Nat :=
  n.radix.numeralValue n.digits

/-- The number that the literal stands for. -/
def value (n : Literal) : Int :=
  if n.negative then -n.magnitude else n.magnitude

/-- The value has 64 bits. -/
def InRange (n : Literal) : Prop :=
  -2 ^ 63 ≤ n.value ∧ n.value ≤ 2 ^ 63 - 1

/-- The least value of 64 bits, in hexadecimal digits. -/
def IsLeastHexadecimal (n : Literal) : Prop :=
  n.radix = .hexadecimal ∧ n.value = -2 ^ 63

instance (n : Literal) : Decidable n.InRange :=
  inferInstanceAs (Decidable (_ ∧ _))

instance (n : Literal) : Decidable n.IsLeastHexadecimal :=
  inferInstanceAs (Decidable (_ ∧ _))

/-- A hexadecimal literal is one that can be read if its magnitude has 64 bits. -/
theorem inRange_iff_of_hexadecimal {n : Literal} (h : n.radix = .hexadecimal) :
    n.InRange ∧ ¬n.IsLeastHexadecimal ↔ (n.magnitude : Int) ≤ 2 ^ 63 - 1 := by
  unfold InRange IsLeastHexadecimal value
  simp only [h, true_and]
  cases n.negative <;> simp only [if_true, Bool.false_eq_true, if_false] <;> omega

end Literal

end Text

namespace Reader

open Text Radix

variable {run rest : List Char} {negative : Bool} {v : Int64}

/-! ## What a sign and a run stand for

A reader has taken a sign and a run of letters and digits, and has to make a value of them.
`signedValue?` is what it does; a hexadecimal run is bounded before its sign is applied and a
decimal run behind it. -/

/-- The bounds of an immediate as numbers. -/
theorem immediate?_eq (z : Int) :
    immediate? z = if -2 ^ 63 ≤ z ∧ z ≤ 2 ^ 63 - 1 then some (Int64.ofInt z) else none := rfl

/-- The mark makes a run hexadecimal, whatever is behind it. -/
theorem signedValue?_mark (hex : List Char) :
    signedValue? negative (hexadecimal.mark ++ hex) =
      ((hexadecimal? hex).bind fun n => immediate? n).map fun v => if negative then -v else v := by
  have hmark : "0x".toList.isPrefixOf? (hexadecimal.mark ++ hex) = some hex :=
    List.isPrefixOf?_eq_some_iff_append_eq.2 rfl
  unfold signedValue?
  rw [hmark]

/-- A run without the mark is read as a decimal numeral together with its sign. -/
theorem signedValue?_plain (h : "0x".toList.isPrefixOf? run = none) :
    signedValue? negative run =
      (decimal? run).bind fun n => immediate? (if negative then -n else n) := by
  unfold signedValue?
  rw [h]

/-- A literal stands for its value if that has 64 bits; in hexadecimal digits the magnitude has to
have them before the sign is applied. -/
theorem signedValue?_literal (n : Literal) :
    signedValue? n.negative n.run =
      if n.InRange ∧ ¬n.IsLeastHexadecimal then some (Int64.ofInt n.value) else none := by
  cases hradix : n.radix with
  | decimal =>
    have hnumeral : decimal.IsNumeral n.digits := hradix ▸ n.numeral
    have hrun : n.run = n.digits := by
      rw [Literal.run, hradix]
      rfl
    have hread : decimal? n.digits = some n.magnitude :=
      decimal?_eq_some_iff.2 ⟨hnumeral, by rw [Literal.magnitude, hradix]⟩
    have hplain : "0x".toList.isPrefixOf? n.digits = none :=
      not_hexadecimal fun c hc => isDigit_decimal_iff.1 (hnumeral.2 c hc)
    have hleast : ¬n.IsLeastHexadecimal := fun h => by cases hradix.symm.trans h.1
    -- sign and digits are converted together, so the check is on the value itself
    rw [hrun, signedValue?_plain hplain, hread, Option.bind_some, immediate?_eq]
    simp only [hleast, not_false_eq_true, and_true]
    rfl
  | hexadecimal =>
    have hrun : n.run = hexadecimal.mark ++ n.digits := by rw [Literal.run, hradix]
    have hread : hexadecimal? n.digits = some n.magnitude :=
      hexadecimal?_eq_some_iff.2 ⟨hradix ▸ n.numeral, by rw [Literal.magnitude, hradix]⟩
    -- the check is on the magnitude, before the sign
    rw [hrun, signedValue?_mark, hread, Option.bind_some, immediate?_eq]
    simp only [Literal.inRange_iff_of_hexadecimal hradix]
    by_cases hle : (n.magnitude : Int) ≤ 2 ^ 63 - 1
    · rw [if_pos ⟨by omega, hle⟩, if_pos hle, Option.map_some, Literal.value]
      cases n.negative with
      | false => rfl
      | true =>
        simp only [if_true]
        rw [Int64.ofInt_neg]
    · rw [if_neg fun h => hle h.2, if_neg hle]
      rfl

/-- Where a sign and a run have a value, they are a literal. So the literals of the grammar are all
that is accepted. -/
theorem exists_literal_of_signedValue? (h : signedValue? negative run = some v) :
    ∃ n : Literal, n.text = signText negative ++ run := by
  cases hmark : "0x".toList.isPrefixOf? run with
  | none =>
    rw [signedValue?_plain hmark] at h
    -- without a mark only a decimal numeral has a value
    obtain ⟨m, hm, -⟩ := Option.bind_eq_some_iff.1 h
    exact ⟨⟨negative, decimal, run, (decimal?_eq_some_iff.1 hm).1⟩, rfl⟩
  | some hex =>
    -- with a mark the rest of the run is a hexadecimal numeral
    obtain rfl : hexadecimal.mark ++ hex = run := List.isPrefixOf?_eq_some_iff_append_eq.1 hmark
    rw [signedValue?_mark] at h
    obtain ⟨u, hu, -⟩ := Option.map_eq_some_iff.1 h
    obtain ⟨m, hm, -⟩ := Option.bind_eq_some_iff.1 hu
    exact ⟨⟨negative, hexadecimal, hex, (hexadecimal?_eq_some_iff.1 hm).1⟩, rfl⟩

/-! ## Operands

What is known of a sign and a run is carried over to the operand: the blanks before it are passed
over, its first character tells that it is an immediate, and the run ends where the letters and
digits do. -/

/-- An operand that begins with a minus sign or a digit is what its sign and its letters and digits
stand for, and it is refused with just these in its message if they stand for nothing. -/
theorem operand_run {c : Cursor} (hc : c.rest.dropWhile isGap = signText negative ++ (run ++ rest))
    (hrun : ∀ d ∈ run, d.isAlphanum = true)
    (hrest : ∀ d, rest.head? = some d → d.isAlphanum = false)
    (hfirst : negative = true ∨ ∃ d t, run = d :: t ∧ d.isDigit = true) :
    operand c = (signedValue? negative run).elim
      (.error (.invalidImmediate (String.ofList (signText negative ++ run))))
      fun v => .ok (.imm v, { c with rest := rest }) := by
  have hplain : negative = false → ¬['-'] <+: run ++ rest := by
    intro hneg hminus
    rw [hneg] at hfirst
    obtain hfalse | ⟨d, t, rfl, hd⟩ := hfirst
    · cases hfalse
    · rw [List.cons_append, List.cons_prefix_cons] at hminus
      rw [← hminus.1] at hd
      exact absurd hd (by decide)
  -- the first character, by which the operand is told to be an immediate
  obtain ⟨d, t, hcons, hd⟩ : ∃ d t, signText negative ++ (run ++ rest) = d :: t ∧
      (d = '-' ∨ d.isDigit = true) := by
    cases hneg : negative with
    | true => exact ⟨'-', run ++ rest, rfl, .inl rfl⟩
    | false =>
      rw [hneg] at hfirst
      obtain hfalse | ⟨d, t, rfl, hd⟩ := hfirst
      · cases hfalse
      · exact ⟨d, t ++ rest, rfl, .inr hd⟩
  -- the cursor as blanks and what is read behind them
  have hgap : Gap (c.rest.takeWhile isGap) := fun e he => List.all_eq_true.1 List.all_takeWhile e he
  have hsplit : c = ⟨c.rest.takeWhile isGap ++ d :: t, c.types⟩ := by
    rw [← hcons, ← hc, List.takeWhile_append_dropWhile]
  rw [hsplit, operand_imm hgap hd, ← bind_pure_comp, bind_apply, ← hcons,
    immediate_run c.types hrun hrest hplain]
  cases signedValue? negative run <;> rfl

/-- A literal is read as its value if that has 64 bits, unless it is the least one in hexadecimal
digits. What begins like an immediate and is no literal is refused, as it is written. -/
theorem operand_literal (c : Cursor) :
    (∀ (n : Literal) (rest : List Char), c.rest.dropWhile isGap = n.text ++ rest →
      (∀ d, rest.head? = some d → d.isAlphanum = false) →
      (n.InRange ∧ ¬n.IsLeastHexadecimal →
        ∃ v : Int64, operand c = .ok (.imm v, { c with rest := rest }) ∧ v.toInt = n.value) ∧
      (¬(n.InRange ∧ ¬n.IsLeastHexadecimal) →
        operand c = .error (.invalidImmediate (String.ofList n.text)))) ∧
    ∀ (negative : Bool) (run rest : List Char),
      c.rest.dropWhile isGap = signText negative ++ (run ++ rest) →
      (∀ d ∈ run, d.isAlphanum = true) →
      (∀ d, rest.head? = some d → d.isAlphanum = false) →
      (negative = true ∨ ∃ d t, run = d :: t ∧ d.isDigit = true) →
      (∀ n : Literal, n.text ≠ signText negative ++ run) →
      operand c = .error (.invalidImmediate (String.ofList (signText negative ++ run))) := by
  refine ⟨?_, ?_⟩
  · intro n rest hc hrest
    -- a literal is a sign and a run that begins with a digit
    have hread := operand_run (hc.trans (List.append_assoc _ _ _)) n.isAlphanum_of_mem_run hrest
      (.inr n.exists_run_eq_cons)
    rw [signedValue?_literal] at hread
    refine ⟨fun hfits => ⟨Int64.ofInt n.value, ?_, ?_⟩, fun hfits => ?_⟩
    · rw [hread, if_pos hfits]
      rfl
    · obtain ⟨hlow, hhigh⟩ := hfits.1
      exact Int64.toInt_ofInt_of_le hlow (by omega)
    · rw [hread, if_neg hfits]
      rfl
  · intro negative run rest hc hrun hrest hfirst hnone
    rw [operand_run hc hrun hrest hfirst]
    cases hvalue : signedValue? negative run with
    | none => rfl
    | some v =>
      -- a run with a value would be a literal
      obtain ⟨n, hn⟩ := exists_literal_of_signedValue? hvalue
      exact absurd hn (hnone n)

/-- Digits of either case are read behind a blank, and a sign alone is refused. -/
theorem operand_literal_negative :
    (∃ v : Int64, operand ⟨" -0x1Fa, %2".toList, ∅⟩ = .ok (.imm v, ⟨", %2".toList, ∅⟩) ∧
      v.toInt = -506) ∧
    operand ⟨" -, %2".toList, ∅⟩ = .error (.invalidImmediate "-") := by
  have hrest : ∀ d, ", %2".toList.head? = some d → d.isAlphanum = false := by
    intro d hd
    cases hd
    decide
  -- a literal has a digit, so a sign alone is none
  have hsign (n : Literal) : n.text ≠ signText true ++ [] := by
    intro htext
    obtain ⟨d, t, hrun, hd⟩ := n.exists_run_eq_cons
    cases hneg : n.negative <;> rw [Literal.text, hneg, hrun] at htext <;> cases htext
    exact absurd hd (by decide)
  constructor
  · let n : Literal := ⟨true, hexadecimal, "1Fa".toList, by decide⟩
    have hfits : n.InRange ∧ ¬n.IsLeastHexadecimal := by decide +kernel
    have hvalue : n.value = -506 := by decide +kernel
    rw [← hvalue]
    exact ((operand_literal ⟨" -0x1Fa, %2".toList, ∅⟩).1 n ", %2".toList rfl hrest).1 hfits
  · exact (operand_literal ⟨" -, %2".toList, ∅⟩).2 true [] ", %2".toList rfl
      (List.forall_mem_nil _) hrest (.inl rfl) hsign

/-- The exception: in decimal digits the same value is read. -/
theorem operand_least_hexadecimal :
    (∃ n : Literal, n.text = "-0x8000000000000000".toList ∧ n.InRange ∧ n.value = -2 ^ 63) ∧
    operand ⟨"-0x8000000000000000".toList, ∅⟩ =
      .error (.invalidImmediate "-0x8000000000000000") ∧
    operand ⟨"-9223372036854775808".toList, ∅⟩ = .ok (.imm Int64.minValue, ⟨[], ∅⟩) := by
  let n : Literal := ⟨true, hexadecimal, "8000000000000000".toList, by decide⟩
  exact ⟨⟨n, rfl, by decide +kernel, by decide +kernel⟩, rfl, rfl⟩

end Reader

end Lowering
