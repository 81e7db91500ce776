import Lowering.Proofs.Reading
import Mathlib.Data.List.Basic

/-!
# Lowering — well-formed routines

A routine is well formed if it could have been read from a text: definitions are registers, symbols
have names that can be written, the opcodes with a mapping rule have the operands that the rule
needs, and no register has a type without being used.

* `Routine.WellFormed` is the property; it mentions neither reading nor writing.
* `Routine.wellFormed_of_parse` — whatever text is accepted, the routine that it describes is
  well formed.

The invariant along a line is `Reader.Gives`: what an accepted reader returned has a property, and
the type table has grown at most by registers that stand in what it returned (`TypeTable.Grows`).
-/

namespace Lowering

/-! ## The property

Each part of it is something that the reader sees to: it reads definitions as registers, names as
runs of their characters, and checks the shape of an instruction; and a type is only declared behind
a register. -/

/-- The characters of a symbol's name: ASCII letters, digits, underscore and full stop. -/
def SymbolChar (c : Char) : Prop :=
  c.isAlphanum = true ∨ c = '_' ∨ c = '.'

/-- A symbol has a name that can be written; any register or immediate will do. -/
def Operand.WellFormed : Operand → Prop
  | .symbol name => name ≠ "" ∧ ∀ c ∈ name.toList, SymbolChar c
  | _ => True

namespace Instr

/-- The instruction has a register in slot `k`. -/
def RegAt (i : Instr) (k : Nat) : Prop :=
  ∃ r, i.operands[k]? = some (.reg r)

/-- The operands that the mapping rule of the opcode needs. -/
def Mappable (i : Instr) : Prop :=
  match i.opcode with
  | .constant => i.numDefs = 1
  | .load => i.numDefs = 1 ∧ i.RegAt 1
  | .store => i.numDefs = 0 ∧ i.RegAt 0 ∧ i.RegAt 1
  | _ => True

/-- An instruction that can be written and read back. -/
structure WellFormed (i : Instr) : Prop where
  defs : ∀ op ∈ i.defs, op.isReg = true
  operands : ∀ op ∈ i.operands, op.WellFormed
  mappable : i.Mappable

end Instr

/-- A routine that can be written and read back. Its types are all written, since each is that of a
register that is used. -/
structure Routine.WellFormed (f : Routine) : Prop where
  instrs : ∀ i ∈ f.instrs, i.WellFormed
  /-- A register has a type only if some instruction uses it. -/
  types : ∀ r ty, f.types[r]? = some ty → ∃ i ∈ f.instrs, Operand.reg r ∈ i.operands

/-! ## Growing type tables

Reading only ever adds to the table. What it adds are types of registers that were read, which is
why every reader is said to give these registers along with its result. -/

namespace TypeTable

/-- The second table has the entries of the first, and others at most for the given registers. -/
def Grows (regs : List Reg) (a b : TypeTable) : Prop :=
  ∀ r, b[r]? = a[r]? ∨ (a[r]? = none ∧ r ∈ regs)

theorem Grows.refl (regs : List Reg) (a : TypeTable) : Grows regs a a :=
  fun _ => .inl rfl

/-- What a table grows by in two steps is what it grows by in either. -/
theorem Grows.trans {l₁ l₂ : List Reg} {a b c : TypeTable} (hab : Grows l₁ a b)
    (hbc : Grows l₂ b c) : Grows (l₁ ++ l₂) a c := by
  intro r
  rcases hbc r with hc | ⟨hb, hr⟩
  · rcases hab r with hb | ⟨ha, hr⟩
    · exact .inl (hc.trans hb)
    · exact .inr ⟨ha, List.mem_append_left _ hr⟩
  · rcases hab r with hba | ⟨ha, _⟩
    · exact .inr ⟨hba ▸ hb, List.mem_append_right _ hr⟩
    · exact .inr ⟨ha, List.mem_append_right _ hr⟩

/-- Declaring a type lets the table grow by its register. Declared once more, the type is there
already. -/
theorem grows_declare? {a b : TypeTable} {r : Reg} {ty : RegType}
    (h : a.declare? r ty = some b) : Grows [r] a b := by
  unfold declare? at h
  split at h
  · -- the register has the type already
    split at h
    · cases h
      exact .refl _ _
    · cases h
  · -- the register is new, and the table grows by it alone
    next hnone =>
    cases h
    intro s
    rw [RegMap.getElem?_insert]
    split
    · next hs =>
      subst hs
      exact .inr ⟨hnone, by simp⟩
    · exact .inl rfl

end TypeTable

/-! ## What readers give

A partial-correctness law for each reader, put together from those of its parts. Nothing is said of
refused texts, nor of where the cursor stands. -/

namespace Reader

variable {α β : Type}

/-- What the reader returns has the property, and the type table grows at most by the registers that
`regs` finds in it. -/
def Gives (x : Reader α) (P : α → Prop) (regs : α → List Reg) : Prop :=
  ∀ c a c', x c = .ok (a, c') → P a ∧ c.types.Grows (regs a) c'.types

/-- Reading an item over and over gives items only. The registers whose types may have been declared
are those of all the items together. -/
theorem Gives.repeats {step : Reader (Option α)} {P : α → Prop} {regs : α → List Reg}
    (hsome : ∀ c x c', step c = .ok (some x, c') → P x ∧ c.types.Grows (regs x) c'.types)
    (hnone : ∀ c c', step c = .ok (none, c') → c'.types = c.types) {c c' : Cursor} {xs : List α}
    (h : Repeats step c xs c') : (∀ x ∈ xs, P x) ∧ c.types.Grows (xs.flatMap regs) c'.types := by
  induction h with
  | stop hstep =>
    rw [hnone _ _ hstep]
    exact ⟨by simp, .refl _ _⟩
  | more hstep _ _ ih =>
    obtain ⟨hx, hgrow⟩ := hsome _ _ _ hstep
    refine ⟨?_, hgrow.trans ih.2⟩
    intro y hy
    rcases List.mem_cons.1 hy with rfl | hy
    · exact hx
    · exact ih.1 y hy

/-- A list of items gives what its items give. -/
theorem Gives.commaList {item : Reader α} {P : α → Prop} {regs : α → List Reg}
    (hitem : item.Gives P regs) :
    Gives (Reader.commaList item) (fun xs => ∀ x ∈ xs, P x) (List.flatMap regs) := by
  intro c xs c' h
  obtain ⟨x, more, m, rfl, hfirst, hmore⟩ := commaList_eq_ok.1 h
  -- behind a comma there is an item, which gives what items give
  have hsome : ∀ c x c', commaStep item c = .ok (some x, c') →
      P x ∧ c.types.Grows (regs x) c'.types := by
    intro c x c' h
    obtain ⟨b, m, hcomma, hstep⟩ := bind_eq_ok.1 h
    cases b with
    | false => cases hstep
    | true =>
      obtain ⟨y, hy, hxy⟩ := map_eq_ok.1 hstep
      cases hxy
      rw [← accept_eq_ok hcomma]
      exact hitem _ _ _ hy
  have hnone : ∀ c c', commaStep item c = .ok (none, c') → c'.types = c.types := by
    intro c c' h
    obtain ⟨b, m, hcomma, hstep⟩ := bind_eq_ok.1 h
    cases b with
    | false =>
      cases hstep
      exact accept_eq_ok hcomma
    | true =>
      obtain ⟨y, _, hxy⟩ := map_eq_ok.1 hstep
      cases hxy
  obtain ⟨hx, hgrow⟩ := hitem _ _ _ hfirst
  obtain ⟨hxs, hgrows⟩ := Gives.repeats hsome hnone hmore
  refine ⟨?_, hgrow.trans hgrows⟩
  intro y hy
  rcases List.mem_cons.1 hy with rfl | hy
  · exact hx
  · exact hxs y hy

/-- A type behind a register is declared for this register and for no other. -/
theorem typeSuffix_gives (r : Reg) : Gives (typeSuffix r) (fun _ => True) (fun _ => [r]) := by
  intro c a c' h
  refine ⟨trivial, ?_⟩
  obtain ⟨one, m, hone, h⟩ := bind_eq_ok.1 h
  obtain ⟨two, m', htwo, h⟩ := bind_eq_ok.1 h
  cases hone
  cases htwo
  -- a type is declared behind a single colon, and nothing is read otherwise
  split at h
  · obtain ⟨_, m, hdrop, h⟩ := bind_eq_ok.1 h
    cases hdrop
    obtain ⟨name, m, hname, h⟩ := bind_eq_ok.1 h
    rw [← show m.types = c.types from (identifier_eq_ok hname).2.2]
    cases hty : RegType.ofName? name with
    | none =>
      rw [hty] at h
      cases h
    | some ty =>
      rw [hty] at h
      simp only [declare] at h
      split at h
      · next types hdecl =>
        cases h
        exact TypeTable.grows_declare? hdecl
      · cases h
  · cases h
    exact .refl _ _

/-- A register may have its own type declared. -/
theorem reg_gives : reg.Gives (fun _ => True) (fun r => [r]) := by
  intro c r c' h
  obtain ⟨_, m, hpercent, h⟩ := bind_eq_ok.1 h
  rw [← expect_eq_ok hpercent]
  obtain ⟨digits, m, hdigits, h⟩ := bind_eq_ok.1 h
  cases hdigits
  cases hn : Text.decimal32? (m.rest.takeWhile Char.isDigit) with
  | none =>
    rw [hn] at h
    cases h
  | some n =>
    rw [hn] at h
    obtain ⟨_, m', hann, h⟩ := bind_eq_ok.1 h
    cases h
    -- only the type behind the number can make the table grow
    have hgrow := typeSuffix_gives _ _ _ _ hann
    exact hgrow

/-- A minus sign is taken where it stands: no blanks are passed over before it. -/
theorem sign_apply (c : Cursor) :
    sign c =
      if ['-'] <+: c.rest then .ok (true, { c with rest := c.rest.drop 1 })
      else .ok (false, c) := by
  unfold sign
  rw [bind_apply, looksAt_apply]
  by_cases h : ['-'] <+: c.rest
  · rw [if_pos h]
    simp only [show "-".toList = ['-'] from rfl, List.isPrefixOf_iff_prefix.2 h]
    rfl
  · rw [if_neg h]
    simp only [show "-".toList = ['-'] from rfl,
      Bool.eq_false_iff.2 fun hp => h (List.isPrefixOf_iff_prefix.1 hp)]
    rfl

/-- Reading an immediate declares nothing. -/
theorem immediate_eq_ok {c c' : Cursor} {v : Int64} (h : immediate c = .ok (v, c')) :
    c'.types = c.types := by
  obtain ⟨negative, m, hsign, h⟩ := bind_eq_ok.1 h
  have hm : m.types = c.types := by
    rw [sign_apply] at hsign
    split at hsign <;> cases hsign <;> rfl
  obtain ⟨digits, m', hdigits, h⟩ := bind_eq_ok.1 h
  cases hdigits
  rw [← hm]
  -- a decimal and a hexadecimal numeral alike: a value ends the reading where the digits end
  cases hhex : "0x".toList.isPrefixOf? (m.rest.takeWhile Char.isAlphanum) with
  | none =>
    simp only [hhex] at h
    generalize (Text.decimal? _).bind _ = value at h
    cases value with
    | none => cases h
    | some v =>
      cases h
      rfl
  | some hex =>
    simp only [hhex] at h
    generalize (Text.hexadecimal? _).bind _ = value at h
    cases value with
    | none => cases h
    | some v =>
      simp only at h
      split at h
      · rw [(keep_eq_ok.1 h).2]
      · cases h
        rfl

/-- A name that was read can be written as the name of a symbol. -/
theorem symbolChar_of_isNameChar {ch : Char} (h : isNameChar ch = true) : SymbolChar ch := by
  simp only [isNameChar, Bool.or_eq_true, beq_iff_eq] at h
  rcases h with (h | h) | h
  · exact .inl h
  · exact .inr (.inl h)
  · exact .inr (.inr h)

/-- An operand is well-formed whatever it is: a symbol has been read as a name. -/
theorem operand_gives : operand.Gives Operand.WellFormed (fun op => op.reg?.toList) := by
  intro c op c' h
  obtain ⟨_, m, hgap, h⟩ := bind_eq_ok.1 h
  cases hgap
  obtain ⟨next, m, hpeek, h⟩ := bind_eq_ok.1 h
  cases hpeek
  cases hnext : (c.rest.dropWhile isGap).head? with
  | none =>
    rw [hnext] at h
    cases h
  | some ch =>
    simp only [hnext] at h
    -- a register, a symbol or an immediate, by the first character
    split at h
    · obtain ⟨r, hr, rfl⟩ := map_eq_ok.1 h
      exact ⟨trivial, (reg_gives _ _ _ hr).2⟩
    · split at h
      · obtain ⟨_, m, hdrop, h⟩ := bind_eq_ok.1 h
        cases hdrop
        obtain ⟨name, hname, rfl⟩ := map_eq_ok.1 h
        obtain ⟨hne, hchars, htypes⟩ := identifier_eq_ok hname
        refine ⟨⟨hne, fun ch hch => symbolChar_of_isNameChar (hchars ch hch)⟩, ?_⟩
        rw [htypes]
        exact .refl _ _
      · split at h
        · obtain ⟨v, hv, rfl⟩ := map_eq_ok.1 h
          refine ⟨trivial, ?_⟩
          rw [immediate_eq_ok hv]
          exact .refl _ _
        · cases h

/-! ## Instructions

The parts of an instruction one by one, up to the whole. Its opcode, its accesses and the check of
its shape declare nothing. -/

/-- Definitions are registers. -/
theorem defs_gives :
    defs.Gives (fun ops => ∀ op ∈ ops, op.isReg = true) (List.flatMap (·.reg?.toList)) := by
  intro c ops c' h
  obtain ⟨_, m, hgap, h⟩ := bind_eq_ok.1 h
  cases hgap
  obtain ⟨percent, m, hlook, h⟩ := bind_eq_ok.1 h
  cases hlook
  split at h
  · obtain ⟨rs, m, hrs, h⟩ := bind_eq_ok.1 h
    obtain ⟨_, m', hequals, h⟩ := bind_eq_ok.1 h
    cases h
    refine ⟨?_, ?_⟩
    · intro op hop
      obtain ⟨r, _, rfl⟩ := List.mem_map.1 hop
      rfl
    · -- the equals sign takes nothing from the table
      rw [expect_eq_ok hequals, List.flatMap_map]
      exact (reg_gives.commaList _ _ _ hrs).2
  · cases h
    exact ⟨by simp, .refl _ _⟩

/-- Uses are well-formed operands. -/
theorem uses_gives :
    uses.Gives (fun ops => ∀ op ∈ ops, op.WellFormed) (List.flatMap (·.reg?.toList)) := by
  intro c ops c' h
  obtain ⟨ended, m, hend, h⟩ := bind_eq_ok.1 h
  rw [atLineEnd_apply] at hend
  cases hend
  obtain ⟨colons, m, hlook, h⟩ := bind_eq_ok.1 h
  cases hlook
  split at h
  · cases h
    exact ⟨by simp, .refl _ _⟩
  · -- neither look moves the cursor
    have hops := operand_gives.commaList _ _ _ h
    exact hops

/-- Reading an opcode declares nothing. -/
theorem opcode_eq_ok {c c' : Cursor} {op : Opcode} (h : opcode c = .ok (op, c')) :
    c'.types = c.types := by
  obtain ⟨name, m, hname, h⟩ := bind_eq_ok.1 h
  cases hop : Opcode.ofName? name with
  | none =>
    rw [hop] at h
    cases h
  | some op =>
    rw [hop] at h
    cases h
    exact (identifier_eq_ok hname).2.2

/-- Reading an access declares nothing. -/
theorem access?_eq_ok {c c' : Cursor} {a? : Option Access} (h : access? c = .ok (a?, c')) :
    c'.types = c.types := by
  obtain ⟨colons, m, hcolons, h⟩ := bind_eq_ok.1 h
  rw [← accept_eq_ok hcolons]
  split at h
  · obtain ⟨word, m', hword, h⟩ := bind_eq_ok.1 h
    cases ha : Access.ofText? word with
    | none =>
      rw [ha] at h
      cases h
    | some a =>
      rw [ha] at h
      cases h
      exact (identifier_eq_ok hword).2.2
  · cases h
    rfl

/-- Reading accesses declares nothing. Induction on the steps of the repetition. -/
theorem accesses_eq_ok {c c' : Cursor} {as : List Access} (h : many access? c = .ok (as, c')) :
    c'.types = c.types := by
  have hsteps := many_eq_ok_iff.1 h
  induction hsteps with
  | stop hstep => exact access?_eq_ok hstep
  | more hstep _ hrest ih => exact (ih (many_eq_ok_iff.2 hrest)).trans (access?_eq_ok hstep)

/-- A slot that passes the check has a register in it, and checking it takes nothing. -/
theorem checkRegister_eq_ok {i : Instr} {k : Nat} {c c' : Cursor}
    (h : checkRegister i k c = .ok ((), c')) : i.RegAt k ∧ c' = c := by
  unfold checkRegister at h
  split at h
  · cases h
  · obtain ⟨op, m, hop, h⟩ := bind_eq_ok.1 h
    -- what was an answer or a fault of the instruction is kept without reading
    obtain ⟨hat, rfl⟩ := keep_eq_ok.1 hop
    unfold Instr.operandAt at hat
    split at hat
    · next hget =>
      cases hat
      cases op with
      | reg r =>
        cases h
        exact ⟨⟨r, hget⟩, rfl⟩
      | imm v => cases h
      | symbol name => cases h
    · cases hat

/-- A shape that passes the check is the one that is asked for: as many definitions as the rule
wants, and a register in each of the slots. -/
theorem checkShape_eq_ok {i : Instr} {n : Nat} {slots : List Nat} {c c' : Cursor}
    (h : checkShape i n slots c = .ok ((), c')) :
    (i.numDefs = n ∧ ∀ k ∈ slots, i.RegAt k) ∧ c' = c := by
  unfold checkShape at h
  split at h
  · next hn =>
    -- the slots are checked in turn, and no check moves the cursor
    have hslots : (∀ k ∈ slots, i.RegAt k) ∧ c' = c := by
      clear hn
      induction slots generalizing c with
      | nil =>
        cases h
        exact ⟨by simp, rfl⟩
      | cons k slots ih =>
        change (checkRegister i k >>= fun _ => slots.forM (checkRegister i)) c = _ at h
        obtain ⟨_, m, hk, htail⟩ := bind_eq_ok.1 h
        obtain ⟨hreg, rfl⟩ := checkRegister_eq_ok hk
        obtain ⟨hregs, rfl⟩ := ih htail
        refine ⟨?_, rfl⟩
        intro j hj
        rcases List.mem_cons.1 hj with rfl | hj
        · exact hreg
        · exact hregs j hj
    exact ⟨⟨hn, hslots.1⟩, hslots.2⟩
  · cases h

/-- An instruction that passes the check has the operands that its mapping rule needs. -/
theorem checkMappable_eq_ok {i : Instr} {c c' : Cursor} (h : checkMappable i c = .ok ((), c')) :
    i.Mappable ∧ c' = c := by
  unfold checkMappable at h
  unfold Instr.Mappable
  cases hop : i.opcode with
  | constant =>
    simp only [hop] at h
    obtain ⟨⟨hn, _⟩, hc⟩ := checkShape_eq_ok h
    exact ⟨hn, hc⟩
  | load =>
    simp only [hop] at h
    obtain ⟨⟨hn, hregs⟩, hc⟩ := checkShape_eq_ok h
    exact ⟨⟨hn, hregs 1 (by simp)⟩, hc⟩
  | store =>
    simp only [hop] at h
    obtain ⟨⟨hn, hregs⟩, hc⟩ := checkShape_eq_ok h
    exact ⟨⟨hn, hregs 0 (by simp), hregs 1 (by simp)⟩, hc⟩
  | _ =>
    simp only [hop] at h
    cases h
    exact ⟨trivial, rfl⟩

/-- The accesses of an instruction are put to it one after the other. -/
theorem foldl_withAccess (i : Instr) (as : List Access) :
    as.foldl Instr.withAccess i = { i with accesses := i.accesses ++ as } := by
  induction as generalizing i with
  | nil => simp
  | cons a as ih => simp [ih, Instr.withAccess]

/-- An instruction that was read is well-formed, and the types declared with it are those of its own
registers. -/
theorem instr_gives : instr.Gives Instr.WellFormed Instr.regs := by
  intro c i c' h
  obtain ⟨ds, m₁, hdefs, h⟩ := bind_eq_ok.1 h
  obtain ⟨op, m₂, hopcode, h⟩ := bind_eq_ok.1 h
  obtain ⟨us, m₃, huses, h⟩ := bind_eq_ok.1 h
  obtain ⟨j, m₄, hmarked, h⟩ := bind_eq_ok.1 h
  obtain ⟨as, m₅, haccesses, h⟩ := bind_eq_ok.1 h
  obtain ⟨_, m₆, hchecked, h⟩ := bind_eq_ok.1 h
  cases h
  obtain ⟨hdefRegs, hdefTypes⟩ := defs_gives _ _ _ hdefs
  obtain ⟨huseForms, huseTypes⟩ := uses_gives _ _ _ huses
  obtain ⟨hj, rfl⟩ := keep_eq_ok.1 hmarked
  obtain ⟨hmappable, rfl⟩ := checkMappable_eq_ok hchecked
  -- the accesses are put to the instruction last and leave its operands alone
  have hoperands : j.operands = ds ++ us ∧ j.numDefs = ds.length := by
    unfold Instr.withDefs at hj
    split at hj <;> cases hj
    exact ⟨rfl, rfl⟩
  rw [foldl_withAccess] at hmappable ⊢
  refine ⟨⟨?_, ?_, hmappable⟩, ?_⟩
  · intro o ho
    change o ∈ j.operands.take j.numDefs at ho
    rw [hoperands.1, hoperands.2, List.take_left] at ho
    exact hdefRegs o ho
  · intro o ho
    change o ∈ j.operands at ho
    rw [hoperands.1] at ho
    rcases List.mem_append.1 ho with ho | ho
    · have hreg := hdefRegs o ho
      cases o with
      | reg r => trivial
      | imm v => cases hreg
      | symbol name => cases hreg
    · exact huseForms o ho
  · rw [accesses_eq_ok haccesses]
    rw [← opcode_eq_ok hopcode] at hdefTypes
    have hregs : j.regs = ds.flatMap (·.reg?.toList) ++ us.flatMap (·.reg?.toList) := by
      rw [Instr.regs, hoperands.1, List.filterMap_append, List.filterMap_eq_flatMap_toList,
        List.filterMap_eq_flatMap_toList]
    exact hregs ▸ hdefTypes.trans huseTypes

end Reader

/-! ## Routines

The property is an invariant of reading a text: it holds of the empty routine, and every line keeps
it. -/

namespace Routine

theorem WellFormed.empty : empty.WellFormed where
  instrs := by simp [Routine.empty]
  types := by simp [Routine.empty]

/-- One more line keeps a routine well formed: its instruction is well-formed by itself, and types
are added for registers of this instruction only. -/
theorem WellFormed.readLine {f g : Routine} {line : List Char} (hf : f.WellFormed)
    (h : f.readLine line = .ok g) : g.WellFormed := by
  obtain ⟨i?, rest, hline, hinstrs⟩ := readLine_eq_ok_iff.1 h
  obtain ⟨instrs, types⟩ := g
  cases hinstrs
  by_cases hend : Reader.EndsLine ((Text.content line).dropWhile Reader.isGap).head?
  · -- a line without an instruction adds nothing
    rw [Reader.line_blank hend] at hline
    cases hline
    simpa using hf
  · rw [Reader.line_statement hend] at hline
    obtain ⟨i, hstatement, rfl⟩ := Reader.map_eq_ok.1 hline
    obtain ⟨_, m, hinstr, hlater⟩ := Reader.bind_eq_ok.1 hstatement
    obtain ⟨_, m', hlineEnd, hpure⟩ := Reader.bind_eq_ok.1 hlater
    cases hpure
    obtain ⟨hform, hgrow⟩ := Reader.instr_gives _ _ _ hinstr
    rw [← show types = m.types from congrArg Cursor.types (Reader.lineEnd_eq_ok.1 hlineEnd).2]
      at hgrow
    constructor
    · intro j hj
      rcases List.mem_append.1 hj with hj | hj
      · exact hf.instrs j hj
      · rw [List.mem_singleton.1 hj]
        exact hform
    · intro r ty hty
      -- a type was there before the line, or the line's instruction uses the register
      rcases hgrow r with hold | ⟨_, hr⟩
      · obtain ⟨j, hj, hrj⟩ := hf.types r ty (hold ▸ hty)
        exact ⟨j, List.mem_append_left _ hj, hrj⟩
      · exact ⟨i, by simp, Instr.mem_regs.1 hr⟩

/-- Reading some lines keeps a routine well-formed. Induction on the lines. -/
theorem WellFormed.readLines {f g : Routine} {n : Nat} {lines : List (List Char)}
    (hf : f.WellFormed) (h : f.readLines n lines = .ok g) : g.WellFormed := by
  induction lines generalizing f n with
  | nil =>
    cases h
    exact hf
  | cons line rest ih =>
    rw [Routine.readLines] at h
    split at h
    · next f' hline => exact ih (hf.readLine hline) h
    · cases h

/-- Every text that is accepted describes a well-formed routine. -/
theorem wellFormed_of_parse {text : String} {f : Routine} (h : parse text = .ok f) :
    f.WellFormed :=
  WellFormed.empty.readLines h

end Routine

end Lowering
