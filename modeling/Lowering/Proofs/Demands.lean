import Lowering.Selection.Run
import Mathlib.Data.List.Basic

/-!
# Lowering — the demands of a selection

What the mappings of a selection demand of the registers of a stream, in the order in which the
demands are met: instruction by instruction, and within an instruction operand by operand
(`Selection.pairwise_placed`). `Selection.Demanded` says of one operand what is demanded of it, and
`Selection.mem_placed_iff` that the list of all demands holds these and no others.
-/

namespace Lowering

/-! ## Demands on one instruction -/

/-- The register operands of an instruction are its operands that are registers, each with the slot
where it stands. -/
theorem Instr.mem_regOperands {i : Instr} {k : Nat} {r : Reg} :
    (k, r) ∈ i.regOperands ↔ i.operands[k]? = some (.reg r) := by
  unfold Instr.regOperands
  rw [List.mem_filterMap]
  constructor
  · rintro ⟨⟨op, j⟩, hmem, hreg⟩
    have hop : i.operands[j]? = some op := List.mem_zipIdx_iff_getElem?.1 hmem
    obtain ⟨s, hs, heq⟩ := Option.map_eq_some_iff.1 hreg
    cases heq
    exact Operand.reg?_eq_some_iff.1 hs ▸ hop
  · intro h
    exact ⟨(.reg r, k), List.mem_zipIdx_iff_getElem?.2 h, rfl⟩

/-- The items of a list are numbered in ascending order. -/
theorem pairwise_zipIdx {α : Type} (as : List α) : as.zipIdx.Pairwise fun a b => a.2 < b.2 := by
  rw [← List.pairwise_map (f := Prod.snd), List.zipIdx_map_snd]
  exact List.pairwise_lt_range'

/-- The register operands come in the order of their slots. -/
theorem Instr.pairwise_regOperands (i : Instr) :
    i.regOperands.Pairwise fun a b => a.1 < b.1 := by
  -- leaving some operands out keeps the order of the slots
  unfold Instr.regOperands
  rw [List.pairwise_filterMap]
  refine (pairwise_zipIdx i.operands).imp ?_
  rintro ⟨op, j⟩ ⟨op', j'⟩ hlt a ha b hb
  obtain ⟨r, _, rfl⟩ := Option.map_eq_some_iff.1 ha
  obtain ⟨r', _, rfl⟩ := Option.map_eq_some_iff.1 hb
  exact hlt

namespace InstrMapping

variable {m : InstrMapping} {i : Instr}

/-- A mapping demands something of an operand exactly if the operand is a register and the map has
an entry for it. -/
theorem mem_demands {d : Demand} :
    d ∈ m.demands i ↔
      i.operands[d.operand]? = some (.reg d.reg) ∧ m.operands.get? d.operand = some d.value := by
  unfold demands
  rw [List.mem_filterMap]
  constructor
  · rintro ⟨⟨k, r⟩, hreg, hvalue⟩
    obtain ⟨v, hv, rfl⟩ := Option.map_eq_some_iff.1 hvalue
    exact ⟨Instr.mem_regOperands.1 hreg, hv⟩
  · rintro ⟨hreg, hvalue⟩
    exact ⟨(d.operand, d.reg), Instr.mem_regOperands.2 hreg, by simp [hvalue]⟩

/-- The demands on an instruction come in the order of its slots, and no slot comes twice. -/
theorem pairwise_demands (m : InstrMapping) (i : Instr) :
    (m.demands i).Pairwise fun a b => a.operand < b.operand := by
  unfold demands
  rw [List.pairwise_filterMap]
  refine i.pairwise_regOperands.imp ?_
  rintro ⟨k, r⟩ ⟨k', r'⟩ hlt a ha b hb
  obtain ⟨v, _, rfl⟩ := Option.map_eq_some_iff.1 ha
  obtain ⟨v', _, rfl⟩ := Option.map_eq_some_iff.1 hb
  exact hlt

end InstrMapping

/-! ## Demands on a stream

The demands of all choices in a row are what settling goes through from the beginning to the end of
a stream. A demand in this list carries the number of its instruction, so that equal demands of
different instructions stay apart. -/

namespace Selection

/-- The mapping chosen for instruction number `j` demands `v` of its operand `k`, which is the
register `r`. -/
def Demanded (s : Selection) (instrs : List Instr) (j k : Nat) (r : Reg) (v : ValueMapping) :
    Prop :=
  ∃ i c, instrs[j]? = some i ∧ s.choices[j]? = some c ∧
    i.operands[k]? = some (.reg r) ∧ c.mapping.operands.get? k = some v

/-- All demands on a stream whose first instruction has number `n`, each with the number of its
instruction. -/
def placed (n : Nat) : List Instr → List Choice → List (Nat × Demand)
  | i :: is, c :: cs => (c.mapping.demands i).map (n, ·) ++ placed (n + 1) is cs
  | _, _ => []

variable {n j : Nat} {d : Demand} {is : List Instr} {cs : List Choice}

theorem map_snd_numbered (n : Nat) (ds : List Demand) : (ds.map (n, ·)).map Prod.snd = ds := by
  rw [List.map_map]
  exact List.map_id ds

/-- The demands on a stream are those on its first instruction, and then those on the rest. -/
theorem placed_cons_demands (n : Nat) (i : Instr) (is : List Instr) (c : Choice)
    (cs : List Choice) : (placed n (i :: is) (c :: cs)).map Prod.snd =
      c.mapping.demands i ++ (placed (n + 1) is cs).map Prod.snd := by
  rw [placed, List.map_append, map_snd_numbered]

/-- No demand on a stream has a number below that of its first instruction. -/
theorem le_of_mem_placed (h : (j, d) ∈ placed n is cs) : n ≤ j := by
  induction is generalizing n cs with
  | nil => cases h
  | cons i is ih =>
    cases cs with
    | nil => cases h
    | cons c cs =>
      -- the demand is one of the first instruction, or one of those behind it
      rcases List.mem_append.1 h with h | h
      · obtain ⟨d', _, heq⟩ := List.mem_map.1 h
        cases heq
        exact Nat.le_refl _
      · have hle := ih h
        omega

/-- A demand stands in the list exactly if the mapping chosen for the instruction of its number has
it. Induction on the stream; the number and the place in the stream move on together. -/
theorem mem_placed : (n + j, d) ∈ placed n is cs ↔
    ∃ i c, is[j]? = some i ∧ cs[j]? = some c ∧ d ∈ c.mapping.demands i := by
  induction is generalizing n j cs with
  | nil => simp [placed]
  | cons i is ih =>
    cases cs with
    | nil => simp [placed]
    | cons c cs =>
      rw [placed, List.mem_append, List.mem_map]
      cases j with
      | zero =>
        -- the first instruction has its own demands only, since those behind it have higher numbers
        constructor
        · rintro (⟨d', hd, heq⟩ | h)
          · cases heq
            exact ⟨i, c, rfl, rfl, hd⟩
          · have hle := le_of_mem_placed h
            omega
        · rintro ⟨i', c', hi, hc, hd⟩
          cases hi
          cases hc
          exact .inl ⟨d, hd, rfl⟩
      | succ j =>
        rw [show n + (j + 1) = n + 1 + j by omega, ih, List.getElem?_cons_succ,
          List.getElem?_cons_succ]
        constructor
        · rintro (⟨d', _, heq⟩ | h)
          · have hfst := congrArg Prod.fst heq
            simp only at hfst
            omega
          · exact h
        · exact .inr

/-- The order in which demands are met: by the number of the instruction, then by the operand. -/
def Before (a b : Nat × Nat) : Prop :=
  a.1 < b.1 ∨ (a.1 = b.1 ∧ a.2 < b.2)

theorem Before.asymm {a b : Nat × Nat} (h : Before a b) : ¬ Before b a := by
  unfold Before at h ⊢
  omega

/-- The demands on a stream are in the order in which they are met, which also means that none comes
twice. -/
theorem pairwise_placed (n : Nat) (is : List Instr) (cs : List Choice) :
    (placed n is cs).Pairwise fun a b => Before (a.1, a.2.operand) (b.1, b.2.operand) := by
  induction is generalizing n cs with
  | nil => exact .nil
  | cons i is ih =>
    cases cs with
    | nil => exact .nil
    | cons c cs =>
      rw [placed, List.pairwise_append]
      refine ⟨?_, ih (n + 1) cs, ?_⟩
      · rw [List.pairwise_map]
        exact (c.mapping.pairwise_demands i).imp fun hlt => .inr ⟨rfl, hlt⟩
      · -- every demand of a later instruction has a higher number
        rintro a ha ⟨j, d⟩ hb
        obtain ⟨d', _, rfl⟩ := List.mem_map.1 ha
        have hle := le_of_mem_placed hb
        exact .inl (by omega)

/-- The list of all demands of a selection holds what its mappings demand, and no more. It is what
ties the list that the proofs go through to the statement about single operands. -/
theorem mem_placed_iff {s : Selection} {instrs : List Instr} :
    (j, d) ∈ placed 0 instrs s.choices ↔ s.Demanded instrs j d.operand d.reg d.value := by
  have h : (0 + j, d) ∈ placed 0 instrs s.choices ↔ _ := mem_placed
  rw [Nat.zero_add] at h
  rw [h]
  simp only [Demanded, InstrMapping.mem_demands]

end Selection

end Lowering
