import Lowering.Proofs.BatchReports
import Mathlib.Data.List.Perm.Basic

/-!
# Lowering — the order of a batch

Patching only sets bits, and which bits a fixup sets does not depend on the code. So the code that a
batch leaves depends on which fixups stand in it, and not on their order or on how often they come
(`Fixup.exists_resolveAll_of_mem_iff`), and resolving the batch again changes nothing
(`Fixup.exists_resolveAll_again`), however the fields overlap and whatever they held. The reports
follow the order of the batch, so in another order they are the same up to order
(`Fixup.resolveAll_perm`).
-/

namespace Lowering.Fixup

variable {a a' b : Assembly} {es fs gs : List Fixup}

/-- A batch is resolved to its end exactly if all of it fits. -/
theorem exists_resolveAll_iff :
    (∃ b, a.after (resolveAll fs) = (.ok (), b)) ↔ ∀ f ∈ fs, f.Fits a.code.size := by
  constructor
  · intro h
    obtain ⟨b, hb⟩ := h
    exact (after_resolveAll_eq_ok hb).1
  · intro hfits
    obtain ⟨b, hb, _⟩ := after_resolveAll hfits
    exact ⟨b, hb⟩

/-- Two batches of the same fixups leave the same code. A bit of it is set if it was set or if some
fixup of the batch sets it, and that only asks which fixups there are. -/
theorem exists_resolveAll_of_mem_iff (h : a.after (resolveAll fs) = (.ok (), b))
    (hmem : ∀ f, f ∈ es ↔ f ∈ fs) :
    ∃ c, a.after (resolveAll es) = (.ok (), c) ∧ c.code = b.code := by
  obtain ⟨hfits, hsize, _, hbits⟩ := after_resolveAll_eq_ok h
  have hfits' : ∀ f ∈ es, f.Fits a.code.size := fun f hf => hfits f ((hmem f).1 hf)
  obtain ⟨c, hc, hsize', hbits'⟩ := after_resolveAll hfits'
  refine ⟨c, hc, CodeBuffer.ext_of_bit (hsize'.trans hsize.symm) ?_⟩
  intro p
  rw [Bool.eq_iff_iff, hbits, hbits']
  simp only [hmem]

/-- What a batch sets is set when it is resolved again, whatever was reported in between. So the
second run changes nothing: bits are only ever set, and all that it would set are there. -/
theorem exists_resolveAll_again (h : a.after (resolveAll fs) = (.ok (), b))
    (hcode : a'.code = b.code) :
    ∃ c, a'.after (resolveAll fs) = (.ok (), c) ∧ c.code = b.code := by
  obtain ⟨hfits, hsize, _, hbits⟩ := after_resolveAll_eq_ok h
  have hfits' : ∀ f ∈ fs, f.Fits a'.code.size := by
    rw [hcode, hsize]
    exact hfits
  obtain ⟨c, hc, hsize', hbits'⟩ := after_resolveAll hfits'
  rw [hcode] at hsize' hbits'
  refine ⟨c, hc, CodeBuffer.ext_of_bit hsize' ?_⟩
  intro p
  -- every bit that the fixups set is set already
  rw [Bool.eq_iff_iff, hbits', or_iff_left_iff_imp, hbits]
  exact .inr

/-- The reports are made fixup by fixup, so another order of the batch is another order of them. -/
theorem reports_perm (h : fs.Perm gs) : (reports fs).Perm (reports gs) :=
  (h.filter _).map _

/-- A batch in another order is resolved to its end exactly if the batch is. It leaves the same code
then, and the same reports up to order. Resolving the batch again leaves the code as it is, and a
batch in which some of the fixups come more than once leaves the same code as well. -/
theorem resolveAll_perm (a : Assembly) (h : fs.Perm gs) :
    ((∃ b, a.after (resolveAll fs) = (.ok (), b)) ↔
        ∃ c, a.after (resolveAll gs) = (.ok (), c)) ∧
      ∀ b, a.after (resolveAll fs) = (.ok (), b) →
        (∀ c, a.after (resolveAll gs) = (.ok (), c) → c.code = b.code ∧
          ∃ ds ds', b.diags = a.diags ++ ds ∧ c.diags = a.diags ++ ds' ∧ ds.Perm ds') ∧
        (∀ a' : Assembly, a'.code = b.code →
          ∃ c, a'.after (resolveAll fs) = (.ok (), c) ∧ c.code = b.code) ∧
        ∀ es, (∀ f, f ∈ es ↔ f ∈ fs) →
          ∃ c, a.after (resolveAll es) = (.ok (), c) ∧ c.code = b.code := by
  constructor
  · rw [exists_resolveAll_iff, exists_resolveAll_iff]
    exact forall_congr' fun f => imp_congr_left h.mem_iff
  · intro b hb
    refine ⟨?_, ?_, ?_⟩
    · intro c hc
      -- the code depends on which fixups there are, the reports on how often as well
      obtain ⟨c', hc', hcode⟩ := exists_resolveAll_of_mem_iff hb fun f => h.mem_iff.symm
      cases hc.symm.trans hc'
      have hdiags := (after_resolveAll_eq_ok hb).2.2.1
      have hdiags' := (after_resolveAll_eq_ok hc).2.2.1
      exact ⟨hcode, reports fs, reports gs, hdiags, hdiags', reports_perm h⟩
    · intro a' ha'
      exact exists_resolveAll_again hb ha'
    · intro es hes
      exact exists_resolveAll_of_mem_iff hb hes

/-- A branch out of its range and a byte of data in the middle of its field, over code that is not
clear: in either order, and with the branch twice. -/
theorem resolveAll_perm_overlap :
    let a := Assembly.ofCode ⟨[0xF0, 0x0F, 0x80, 0x01, 0xFF]⟩
    let branch : Fixup := ⟨.branch, 0, 600000, ⟨3, 7⟩⟩
    let data : Fixup := ⟨.data1, 1, -1, .unknown⟩
    ∃ b c d, a.after (resolveAll [branch, data]) = (.ok (), b) ∧
      a.after (resolveAll [data, branch]) = (.ok (), c) ∧
      a.after (resolveAll [branch, data, branch]) = (.ok (), d) ∧
      c.code = b.code ∧ d.code = b.code ∧ b.diags.length = 1 := by
  intro a branch data
  have hperm : [branch, data].Perm [data, branch] := .swap data branch []
  have hb : ∃ b, a.after (resolveAll [branch, data]) = (.ok (), b) :=
    exists_resolveAll_iff.2 (by decide)
  obtain ⟨hiff, hcodes⟩ := resolveAll_perm a hperm
  obtain ⟨b, hb⟩ := hb
  obtain ⟨c, hc⟩ := hiff.1 ⟨b, hb⟩
  obtain ⟨hother, _, hrepeated⟩ := hcodes b hb
  obtain ⟨d, hd, hcode⟩ := hrepeated [branch, data, branch] (by simp [or_comm])
  have hdiags := (after_resolveAll_eq_ok hb).2.2.1
  exact ⟨b, c, d, hb, hc, hd, (hother c hc).1, hcode, by rw [hdiags]; decide⟩

end Lowering.Fixup
