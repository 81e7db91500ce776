import Lowering.Proofs.WellFormed
import Lowering.Proofs.TypeNames
import Lowering.Routine.Printer

/-!
# Lowering — reading back an operand

The first half of the way from tokens to a line: each token, with any blanks before it and anything
after it that cannot be taken for a part of it, is read as what it was written for.

* `ReadsBack` — a text is read as a value, whatever stands around it.
* `reg_typed_readsBack`, `imm_readsBack`, `symbol_readsBack` — the operands.
-/

namespace Lowering.Reader

variable {α : Type}

/-! ## Blanks before a token and ends of tokens

Whatever stands around a token must neither be swallowed by it nor swallow it. In front there may be
blanks, which are passed over as long as the token begins with something else; behind it the text
has to begin with a character that no token goes on with. -/

/-- The text starts with something that is not passed over. -/
def Solid (s : List Char) : Prop :=
  ∃ c t, s = c :: t ∧ isGap c = false

/-- No token goes on into the text: neither a name, nor a numeral, nor the type of a register. -/
def Stops (s : List Char) : Prop :=
  ∀ c, s.head? = some c → isNameChar c = false ∧ c ≠ ':'

theorem Solid.append {s : List Char} (hs : Solid s) (t : List Char) : Solid (s ++ t) := by
  obtain ⟨c, u, rfl, hc⟩ := hs
  exact ⟨c, u ++ t, rfl, hc⟩

/-- Blanks are passed over up to the text behind them, and no further. -/
theorem dropWhile_gap {g s : List Char} (hg : Gap g) (hs : Solid s) :
    (g ++ s).dropWhile isGap = s := by
  obtain ⟨c, t, rfl, hc⟩ := hs
  rw [List.dropWhile_append_of_pos hg, List.dropWhile_cons_of_neg (by simp [hc])]

/-! ## Tokens

Each token reader, run on blanks and the text of the token with something behind it, takes just
these. Where the text is fixed nothing is asked of what stands behind it; a name must not go on into
it. -/

variable {g rest : List Char}

theorem accept_text (types : TypeTable) {text : String} {cs : List Char}
    (htext : text.toList = cs) (hg : Gap g) (hsolid : Solid cs) :
    accept text ⟨g ++ (cs ++ rest), types⟩ = .ok (true, ⟨rest, types⟩) := by
  rw [accept_apply]
  simp only [dropWhile_gap hg (hsolid.append rest), htext, List.prefix_append, if_true]
  rw [← String.length_toList, htext, List.drop_left]

theorem expect_text (types : TypeTable) {text : String} {cs : List Char}
    (htext : text.toList = cs) (hg : Gap g) (hsolid : Solid cs) :
    expect text ⟨g ++ (cs ++ rest), types⟩ = .ok ((), ⟨rest, types⟩) := by
  rw [expect_apply]
  simp only [dropWhile_gap hg (hsolid.append rest), htext, List.prefix_append, if_true]
  rw [← String.length_toList, htext, List.drop_left]

/-- Where another word comes next, nothing is taken but the blanks. -/
theorem accept_other (types : TypeTable) {text : String} {cs : List Char}
    (htext : text.toList = cs) (hg : Gap g) (hsolid : Solid rest) (hother : ¬ cs <+: rest) :
    accept text ⟨g ++ rest, types⟩ = .ok (false, ⟨rest, types⟩) := by
  rw [accept_apply]
  simp only [dropWhile_gap hg hsolid, htext, hother, if_false]

/-- A name is taken as a whole, and no more than it. -/
theorem identifier_text (types : TypeTable) {name : List Char} (hg : Gap g) (hne : name ≠ [])
    (hname : ∀ c ∈ name, isNameChar c = true) (hrest : Stops rest) :
    identifier ⟨g ++ (name ++ rest), types⟩ = .ok (String.ofList name, ⟨rest, types⟩) := by
  have hsolid : Solid name := by
    cases name with
    | nil => exact absurd rfl hne
    | cons c t => exact ⟨c, t, rfl, isGap_of_isNameChar (hname c (by simp))⟩
  obtain ⟨htake, hdrop⟩ := takeWhile_run hname (fun c hc => (hrest c hc).1)
  rw [identifier_apply]
  simp only [dropWhile_gap hg (hsolid.append rest), htake, hdrop, if_neg hne]

/-! ## Registers

A register is followed by a type or not, and what follows its digits decides which. The two cases
part at `reg_apply`. -/

variable {types : TypeTable}

/-- Without a colon there is no type, and nothing is taken. -/
theorem typeSuffix_none {r : Reg} (hrest : ∀ t, rest ≠ ':' :: t) :
    typeSuffix r ⟨rest, types⟩ = .ok ((), ⟨rest, types⟩) := by
  have hcolon : ":".toList.isPrefixOf rest = false := by
    cases rest with
    | nil => rfl
    | cons c t =>
      have hc : c ≠ ':' := fun h => hrest t (h ▸ rfl)
      simp [List.isPrefixOf, Ne.symm hc]
  unfold typeSuffix
  simp only [bind_apply, looksAt_apply, hcolon]
  rfl

/-- The type written after a register is declared for it, unless it has another. This is the only
place where reading back depends on what was read before, and the table says how. -/
theorem typeSuffix_text {r : Reg} {ty : RegType} (hrest : Stops rest) :
    typeSuffix r ⟨':' :: (ty.text.toList ++ rest), types⟩ =
      match types.declare? r ty with
      | some declared => .ok ((), ⟨rest, declared⟩)
      | none => .error (.conflictingType ty r) := by
  have hname : ∀ c ∈ ty.text.toList, isNameChar c = true :=
    fun c => RegType.isNameChar_of_mem_text
  -- the name of a type does not start with a colon, so this is no memory access
  have hdouble : "::".toList.isPrefixOf (':' :: (ty.text.toList ++ rest)) = false := by
    cases htext : ty.text.toList with
    | nil => exact absurd htext ty.text_ne_empty
    | cons c t =>
      have hc : c ≠ ':' := by
        rintro rfl
        exact absurd (hname ':' (by simp [htext])) (by decide)
      simp [List.isPrefixOf, Ne.symm hc]
  have hident : identifier ⟨ty.text.toList ++ rest, types⟩ = .ok (ty.text, ⟨rest, types⟩) := by
    have h := identifier_text types gap_nil ty.text_ne_empty hname hrest
    -- the token readers give back the text of what they took
    rwa [String.ofList_toList] at h
  unfold typeSuffix
  simp only [bind_apply, looksAt_apply, hdouble,
    show ":".toList.isPrefixOf (':' :: (ty.text.toList ++ rest)) = true by simp [List.isPrefixOf]]
  simp only [Bool.not_false, Bool.and_self, if_true, bind_apply, drop_apply, List.drop_succ_cons,
    List.drop_zero, hident, RegType.ofName?_text]
  unfold declare
  cases types.declare? r ty <;> rfl

theorem toList_regText (r : Reg) : r.text.toList = '%' :: Nat.toDigits 10 r.index.toNat := by
  simp [Reg.text]

/-- A register is read by its number; what is made of the text behind it is up to its type. -/
theorem reg_apply {r : Reg} (hg : Gap g) (hrest : ∀ c, rest.head? = some c → c.isDigit = false) :
    reg ⟨g ++ (r.text.toList ++ rest), types⟩ =
      (do
        typeSuffix r
        return r : Reader Reg) ⟨rest, types⟩ := by
  have hpercent : expect "%" ⟨g ++ (r.text.toList ++ rest), types⟩ =
      .ok ((), ⟨Nat.toDigits 10 r.index.toNat ++ rest, types⟩) := by
    rw [toList_regText]
    exact expect_text types (show "%".toList = ['%'] from rfl) hg ⟨'%', [], rfl, by decide⟩
  obtain ⟨htake, hdrop⟩ := takeWhile_run
    (fun c => Text.isDigit_of_mem_toDigits (n := r.index.toNat)) hrest
  unfold reg
  rw [bind_apply, hpercent]
  simp only [bind_apply, takeRun_apply, htake, hdrop, Text.decimal32?_toDigits]

/-- Behind the digits of a register its type begins with a colon. -/
theorem reg_typed_apply {r : Reg} {ty : RegType} (hg : Gap g) :
    reg ⟨g ++ ((r.text ++ ":" ++ ty.text).toList ++ rest), types⟩ =
      (do
        typeSuffix r
        return r : Reader Reg) ⟨':' :: (ty.text.toList ++ rest), types⟩ := by
  have htext : (r.text ++ ":" ++ ty.text).toList ++ rest =
      r.text.toList ++ (':' :: (ty.text.toList ++ rest)) := by
    simp
  rw [htext]
  refine reg_apply hg fun c hc => ?_
  rw [← Option.some.inj hc]
  decide

/-! ## Immediates

What an immediate is read from is a sign or none, and the longest run of letters and digits behind
it. `signedValue?` is what these stand for. -/

/-- The text before the digits of an immediate. -/
def signText (negative : Bool) : List Char :=
  if negative then ['-'] else []

/-- The immediate that a sign and a run of letters and digits stand for. -/
def signedValue? (negative : Bool) (run : List Char) : Option Int64 :=
  match "0x".toList.isPrefixOf? run with
  | some hex =>
    ((Text.hexadecimal? hex).bind fun n => immediate? n).map fun v => if negative then -v else v
  | none => (Text.decimal? run).bind fun n => immediate? (if negative then -n else n)

/-- A hexadecimal numeral stands for no negative number, so its immediate has a negation. -/
theorem negated_hexadecimal {hex : List Char} {v : Int64}
    (h : ((Text.hexadecimal? hex).bind fun n => immediate? n) = some v) :
    negated v = .ok (-v) := by
  obtain ⟨n, _, himm⟩ := Option.bind_eq_some_iff.1 h
  unfold immediate? at himm
  split at himm
  · next hrange =>
    cases himm
    refine if_neg fun hmin => ?_
    -- `n` is in range, so only the least number itself could be the one without a negation
    have hvalue : (Int64.ofInt n).toInt = n :=
      Int64.toInt_ofInt_of_le hrange.1 (Int.lt_of_le_of_lt hrange.2 (by decide))
    rw [hmin] at hvalue
    have hleast : Int64.minValue.toInt < 0 := by decide
    omega
  · cases himm

/-- A sign is taken if there is one. Where there is none, the digits must not be taken for one,
which is the hypothesis. -/
theorem sign_signText {negative : Bool} {s : List Char} (types : TypeTable)
    (hs : negative = false → ¬['-'] <+: s) :
    sign ⟨signText negative ++ s, types⟩ = .ok (negative, ⟨s, types⟩) := by
  rw [sign_apply]
  cases negative with
  | true => exact if_pos (List.prefix_append ['-'] s)
  | false => exact if_neg (hs rfl)

/-- A sign and a run of letters and digits are read as what they stand for, and refused as a whole
if they stand for nothing. -/
theorem immediate_run {negative : Bool} {run : List Char} (types : TypeTable)
    (hrun : ∀ c ∈ run, c.isAlphanum = true)
    (hrest : ∀ c, rest.head? = some c → c.isAlphanum = false)
    (hplain : negative = false → ¬['-'] <+: run ++ rest) :
    immediate ⟨signText negative ++ (run ++ rest), types⟩ =
      (signedValue? negative run).elim
        (.error (.invalidImmediate (String.ofList (signText negative ++ run))))
        fun v => .ok (v, ⟨rest, types⟩) := by
  obtain ⟨htake, hdrop⟩ := takeWhile_run hrun hrest
  have htext : (if negative then '-' :: run else run) = signText negative ++ run := by
    cases negative <;> rfl
  unfold immediate signedValue?
  simp only [bind_apply, sign_signText types hplain, takeRun_apply, htake, hdrop, htext]
  -- without the mark the sign is read with the digits, with it the value is negated afterwards
  cases "0x".toList.isPrefixOf? run with
  | none =>
    simp only
    cases (Text.decimal? run).bind fun n => immediate? (if negative then -n else n) with
    | none => rfl
    | some v => rfl
  | some hex =>
    simp only
    cases hvalue : (Text.hexadecimal? hex).bind fun n => immediate? n with
    | none => rfl
    | some v =>
      simp only [negated_hexadecimal hvalue]
      cases negative <;> rfl

theorem immediate?_toInt (v : Int64) : immediate? v.toInt = some v := by
  unfold immediate?
  rw [if_pos ⟨v.minValue_le_toInt, v.toInt_le⟩, Int64.ofInt_toInt]

/-- Digits do not begin with the mark of a hexadecimal numeral, so that nothing printed is ever read
as one. -/
theorem not_hexadecimal {run : List Char} (h : ∀ c ∈ run, c.isDigit = true) :
    "0x".toList.isPrefixOf? run = none := by
  cases hmark : "0x".toList.isPrefixOf? run with
  | none => rfl
  | some hex =>
    have happend : "0x".toList ++ hex = run := List.isPrefixOf?_eq_some_iff_append_eq.1 hmark
    have hx : 'x' ∈ run := by
      rw [← happend]
      simp
    exact absurd (h 'x' hx) (by decide)

/-- A decimal numeral stands for its number. -/
theorem signedValue?_toDigits (negative : Bool) (n : Nat) :
    signedValue? negative (Nat.toDigits 10 n) = immediate? (if negative then -n else n) := by
  unfold signedValue?
  rw [not_hexadecimal fun c hc => Text.isDigit_of_mem_toDigits hc, Text.decimal?_toDigits]
  rfl

/-- A sign and decimal digits are read as the number that they stand for. The digits are a run of
letters and digits and begin with no sign, so this is a case of `immediate_run`. -/
theorem immediate_toDigits (types : TypeTable) {negative : Bool} {n : Nat} {v : Int64}
    (hvalue : immediate? (if negative then -(n : Int) else n) = some v) (hrest : Stops rest) :
    immediate ⟨signText negative ++ (Nat.toDigits 10 n ++ rest), types⟩ =
      .ok (v, ⟨rest, types⟩) := by
  have hdigit : ∀ c ∈ Nat.toDigits 10 n, c.isDigit = true :=
    fun c hc => Text.isDigit_of_mem_toDigits hc
  have hrun : ∀ c ∈ Nat.toDigits 10 n, c.isAlphanum = true :=
    fun c hc => by simp [Char.isAlphanum, hdigit c hc]
  have hstop : ∀ c, rest.head? = some c → c.isAlphanum = false := by
    intro c hc
    have hname := (hrest c hc).1
    simp only [isNameChar, Bool.or_eq_false_iff] at hname
    exact hname.1.1
  -- a sign would have to be the first digit
  have hplain : ¬['-'] <+: Nat.toDigits 10 n ++ rest := by
    intro hminus
    cases hdigits : Nat.toDigits 10 n with
    | nil => exact absurd hdigits Nat.toDigits_ne_nil
    | cons d ds =>
      have hd : d.isDigit = true := hdigit d (by simp [hdigits])
      rw [hdigits, List.cons_append, List.cons_prefix_cons] at hminus
      rw [← hminus.1] at hd
      exact absurd hd (by decide)
  rw [immediate_run types hrun hstop fun _ => hplain, signedValue?_toDigits, hvalue]
  rfl

/-- An immediate is read back from its text. The least number of all is the reason why the sign is
read with the digits: its magnitude alone would be out of range. -/
theorem immediate_text (types : TypeTable) (v : Int64) (hrest : Stops rest) :
    immediate ⟨v.toInt.repr.toList ++ rest, types⟩ = .ok (v, ⟨rest, types⟩) := by
  have hvalue := immediate?_toInt v
  -- a minus sign is read where the value is negative, and the digits are those of its magnitude
  cases hv : v.toInt with
  | ofNat n =>
    have htext : (Int.ofNat n).repr.toList = signText false ++ Nat.toDigits 10 n :=
      Text.toList_repr n
    rw [hv] at hvalue
    rw [htext, List.append_assoc]
    exact immediate_toDigits types (by rw [if_neg Bool.false_ne_true]; exact hvalue) hrest
  | negSucc n =>
    have htext : (Int.negSucc n).repr.toList = signText true ++ Nat.toDigits 10 (n + 1) := by
      simp [Int.repr, signText]
    rw [hv] at hvalue
    rw [htext, List.append_assoc]
    exact immediate_toDigits types (by rw [if_pos rfl]; exact hvalue) hrest

/-! ## Operands

The text of an operand may be followed by a type. What is read then is the operand, and the type is
declared for it. -/

/-- The text is read as the value, whatever blanks are before it and whatever follows it that is no
part of it; the type table passes from `types` to `declared`. -/
def ReadsBack (item : Reader α) (types : TypeTable) (text : List Char) (x : α)
    (declared : TypeTable) : Prop :=
  ∀ g rest, Gap g → Stops rest → item ⟨g ++ (text ++ rest), types⟩ = .ok (x, ⟨rest, declared⟩)

/-- Where no name goes on, no numeral does. -/
theorem Stops.not_isDigit (hrest : Stops rest) (c : Char) (hc : rest.head? = some c) :
    c.isDigit = false := by
  cases hd : c.isDigit with
  | false => rfl
  | true => rw [← (hrest c hc).1, isNameChar_of_isDigit hd]

/-- A register without a type is read back, and declares nothing. -/
theorem reg_readsBack (r : Reg) (types : TypeTable) :
    ReadsBack reg types r.text.toList r types := by
  intro g rest hg hrest
  have hcolon : ∀ t, rest ≠ ':' :: t := fun t ht => (hrest ':' (by simp [ht])).2 rfl
  rw [reg_apply hg hrest.not_isDigit, bind_apply, typeSuffix_none hcolon]
  rfl

theorem reg_typed_readsBack {r : Reg} {ty : RegType} {types declared : TypeTable}
    (hdeclare : types.declare? r ty = some declared) :
    ReadsBack reg types (r.text ++ ":" ++ ty.text).toList r declared := by
  intro g rest hg hrest
  rw [reg_typed_apply hg, bind_apply, typeSuffix_text hrest, hdeclare]
  rfl

/-- What an operand is depends on its first character. -/
theorem operand_apply {c : Char} {t : List Char} (hg : Gap g) (hc : isGap c = false) :
    operand ⟨g ++ c :: t, types⟩ =
      (if c = '%' then .reg <$> reg
        else if c = '@' then do
          drop 1
          .symbol <$> identifier
        else if c = '-' || c.isDigit then .imm <$> immediate
        else throw (.expectedOperand (some c)) : Reader Operand) ⟨c :: t, types⟩ := by
  unfold operand
  rw [bind_apply, skipGap_apply]
  simp only [dropWhile_gap hg ⟨c, t, rfl, hc⟩, bind_apply, peek_apply, List.head?_cons]

/-- An operand that begins with a percent sign is read as a register is. -/
theorem ReadsBack.operand_reg {types declared : TypeTable} {text : List Char} {r : Reg}
    (h : ReadsBack reg types ('%' :: text) r declared) :
    ReadsBack operand types ('%' :: text) (.reg r) declared := by
  intro g rest hg hrest
  rw [List.cons_append, operand_apply hg (by decide), if_pos rfl]
  exact map_eq_ok.2 ⟨r, h [] rest gap_nil hrest, rfl⟩

/-- The text of an integer begins with a minus sign or a digit. This is how an operand is known for
an immediate. -/
theorem intText_eq_cons (v : Int64) :
    ∃ c t, v.toInt.repr.toList = c :: t ∧ (c = '-' ∨ c.isDigit = true) := by
  cases v.toInt with
  | ofNat n =>
    cases hdigits : Nat.toDigits 10 n with
    | nil => exact absurd hdigits Nat.toDigits_ne_nil
    | cons d ds =>
      refine ⟨d, ds, (Text.toList_repr n).trans hdigits, .inr ?_⟩
      exact Text.isDigit_of_mem_toDigits (n := n) (by simp [hdigits])
  | negSucc n => exact ⟨'-', Nat.toDigits 10 (n + 1), by simp [Int.repr], .inl rfl⟩

/-- An immediate is taken neither for a register nor for a symbol. -/
theorem operand_imm {c : Char} {t : List Char} (hg : Gap g) (hc : c = '-' ∨ c.isDigit = true) :
    operand ⟨g ++ c :: t, types⟩ = (.imm <$> immediate : Reader Operand) ⟨c :: t, types⟩ := by
  have hplain : isGap c = false ∧ c ≠ '%' ∧ c ≠ '@' := by
    rcases hc with rfl | hc
    · decide
    · refine ⟨isGap_of_isNameChar (isNameChar_of_isDigit hc), ?_, ?_⟩
      · rintro rfl
        exact absurd hc (by decide)
      · rintro rfl
        exact absurd hc (by decide)
  rw [operand_apply hg hplain.1, if_neg hplain.2.1, if_neg hplain.2.2, if_pos (by simpa using hc)]

theorem imm_readsBack (v : Int64) (types : TypeTable) :
    ReadsBack operand types (Operand.imm v).text.toList (.imm v) types := by
  intro g rest hg hrest
  obtain ⟨c, t, htext, hc⟩ := intText_eq_cons v
  have himm := immediate_text types v hrest
  rw [show (Operand.imm v).text = v.toInt.repr from rfl]
  rw [htext] at himm ⊢
  rw [List.cons_append, operand_imm hg hc]
  exact map_eq_ok.2 ⟨v, himm, rfl⟩

theorem isNameChar_of_symbolChar {c : Char} (h : SymbolChar c) : isNameChar c = true := by
  rcases h with h | h | h <;> simp [isNameChar, h]

/-- A symbol is read back as an operand if its name is one that can be written: not empty, and of
the characters that symbols are made of. -/
theorem symbol_readsBack {name : String} (hform : (Operand.symbol name).WellFormed)
    (types : TypeTable) :
    ReadsBack operand types (Operand.symbol name).text.toList (.symbol name) types := by
  intro g rest hg hrest
  have hchars : ∀ c ∈ name.toList, isNameChar c = true :=
    fun c hc => isNameChar_of_symbolChar (hform.2 c hc)
  have hne : name.toList ≠ [] := fun h => hform.1 (String.toList_eq_nil_iff.1 h)
  have hident := identifier_text types gap_nil hne hchars hrest
  rw [String.ofList_toList] at hident
  have htext : (Operand.symbol name).text.toList = '@' :: name.toList := by simp [Operand.text]
  rw [htext, List.cons_append, operand_apply hg (by decide), if_neg (by decide), if_pos rfl,
    bind_apply, drop_apply]
  exact map_eq_ok.2 ⟨name, hident, rfl⟩

end Lowering.Reader
