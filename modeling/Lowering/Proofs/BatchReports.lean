import Lowering.Proofs.PcRelative

/-!
# Lowering — what a batch reports, and where it stops

Each fixup of a batch is checked before it is patched, and patching checks nothing more, so it is
reported at most once (`Fixup.complaints_eq`). A batch whose fixups all fit is resolved to its end.
In any other batch the first fixup that does not fit ends the resolving: what was patched before it
stays, it is still checked if it is of some kind, and nothing of it is patched
(`Fixup.after_resolve_of_not_fits`).

* `Fixup.after_resolveAll_eq_ok` — what is known of a batch that was resolved to its end.
* `Fixup.resolveAll_reports` — the two ways in which resolving ends, with all that it reports.
-/

namespace Lowering

namespace FixupKind

variable {k : FixupKind}

/-- A number that is no kind has no layout, and the fault names the number. -/
theorem layout_of_not_valid (h : ¬ k.Valid) : k.layout = .error (.invalidKind k.raw) := by
  have hraw : firstTarget + 5 ≤ k.raw := Nat.le_of_not_lt h
  have htarget : k.isTarget = true := decide_eq_true (by omega)
  have hnone : targetLayouts[k.raw - firstTarget]? = none := by
    apply List.getElem?_eq_none
    show 5 ≤ k.raw - firstTarget
    omega
  unfold layout
  rw [if_pos htarget, hnone]

theorem valid_of_layout {l : Layout} (hl : k.layout = .ok l) : k.Valid := by
  by_contra h
  rw [layout_of_not_valid h] at hl
  cases hl

/-- No layout is relative but those of the relative kinds. -/
theorem pcRelative_of_layout {l : Layout} (hl : k.layout = .ok l) (h : l.pcRelative = true) :
    k.PcRelative := by
  -- a kind is generic or one of the five of the target, and three of these are relative
  obtain hraw | hk | hk | hk | rfl | rfl := (valid_of_layout hl).cases
  · obtain ⟨l', hl', _, _, habsolute, _⟩ :=
      exists_layout_generic (decide_eq_false (Nat.not_le.2 hraw))
    cases hl.symm.trans hl'
    cases habsolute.symm.trans h
  · exact .inl hk
  · exact .inr (.inl hk)
  · exact .inr (.inr hk)
  · cases hl
    cases h
  · cases hl
    cases h

instance (k : FixupKind) : Decidable k.PcRelative :=
  inferInstanceAs (Decidable (_ ∨ _))

end FixupKind

namespace Fixup

open Layout (Signed)

/-! ## Reports

A report depends on the fixup alone, not on the code or on the other fixups. So what a batch reports
is a filter of the batch, and order and number of the reports are those of the fixups. -/

/-- The fixup is relative to the program counter, and its value is no signed number of the width of
its field. -/
def OutOfRange (f : Fixup) : Prop :=
  f.kind.PcRelative ∧ ¬ Signed f.kind.field.width f.value.toInt

instance (f : Fixup) : Decidable f.OutOfRange :=
  inferInstanceAs (Decidable (_ ∧ _))

/-- What is reported of a fixup that is out of range, at the place that it comes from. -/
def diagnostic (f : Fixup) : Diagnostic :=
  ⟨f.loc, f.kind.name, f.value, f.kind.field.width⟩

/-- The reports on a batch: one for each fixup that is out of range, in the order of the batch. -/
def reports (fs : List Fixup) : List Diagnostic :=
  (fs.filter fun f => f.OutOfRange).map diagnostic

/-- What checking says of a single fixup is its report. With this, what is known of
`Fixup.complaints` from patching is read as a statement about `reports`. -/
theorem complaints_eq (f : Fixup) : f.complaints = reports [f] := by
  unfold reports
  by_cases hkind : f.kind.PcRelative
  · rw [complaints_of_pcRelative hkind]
    by_cases hsigned : Signed f.kind.field.width f.value.toInt
    · rw [if_pos hsigned, List.filter_cons_of_neg (by simp [OutOfRange, hsigned])]
      rfl
    · have hout : f.OutOfRange := ⟨hkind, hsigned⟩
      rw [if_neg hsigned, List.filter_cons_of_pos (by simp [hout])]
      rfl
  · have hout : ¬ f.OutOfRange := fun h => hkind h.1
    rw [List.filter_cons_of_neg (by simp [hout])]
    unfold complaints
    cases hl : f.kind.layout with
    | error e => rfl
    | ok l =>
      -- a kind that is not relative is never checked
      have habsolute : ¬ l.pcRelative = true := fun h => hkind (FixupKind.pcRelative_of_layout hl h)
      simp [habsolute]

/-- The reports on a batch are those on its first fixup and then those on the rest. -/
theorem reports_cons (f : Fixup) (fs : List Fixup) :
    reports (f :: fs) = reports [f] ++ reports fs := by
  unfold reports
  rw [← List.map_append, ← List.filter_append]
  rfl

/-! ## A fixup that does not fit

Such a fixup is found out in one of two places. If it is of no kind, checking it fails already; if
its word is not in the code, it is checked and reported, and the reading of the word fails before
anything is written. -/

/-- The fault at a fixup that does not fit code of the given size: it is of no kind, or its word
does not lie inside the code. -/
def fault (f : Fixup) (size : Nat) : PatchFault :=
  if f.kind.Valid then .wordOutside f.kind.wordSize f.offset size else .invalidKind f.kind.raw

instance (f : Fixup) (size : Nat) : Decidable (f.Fits size) :=
  decidable_of_iff (f.kind.Valid ∧ f.offset + f.kind.wordSize ≤ size)
    ⟨fun h => ⟨h.1, h.2⟩, fun h => ⟨h.kind, h.word⟩⟩

variable {f : Fixup} {a b : Assembly} {fs gs : List Fixup}

/-- The word of a fixup is read before anything is written, so a fixup that does not fit leaves
everything as it was. -/
theorem after_apply_of_not_fits (h : ¬ f.Fits a.code.size) (v : Int64) :
    a.after (f.apply v) = (.error (f.fault a.code.size), a) := by
  unfold fault apply
  by_cases hkind : f.kind.Valid
  · obtain ⟨l, hl⟩ := hkind.hasLayout
    obtain ⟨m, hmask, _⟩ := hl.mask_eq
    have hbytes := hl.bytes
    -- the kind has a layout, so it must be the word that is not inside
    have hout : a.code.size < f.offset + f.kind.numBytes l := by
      apply Nat.lt_of_not_le
      intro hword
      exact h ⟨hkind, by rwa [hl.wordSize_eq]⟩
    have hread := CodeBuffer.read_of_outside (by omega) hout
    rw [if_pos hkind, hl.wordSize_eq]
    simp only [Assembly.after_bind, Assembly.after_liftExcept, hl.layout, hl.stored, hmask,
      Assembly.after_read, hread]
  · have hl := FixupKind.layout_of_not_valid hkind
    rw [if_neg hkind]
    simp only [Assembly.after_bind, Assembly.after_liftExcept, hl]

/-- Nothing is patched of a fixup that does not fit, and it is reported as any other: its value is
checked before the code is looked at, and the fault comes behind the report. -/
theorem after_resolve_of_not_fits (h : ¬ f.Fits a.code.size) :
    ∃ b, a.after f.resolve = (.error (f.fault a.code.size), b) ∧ b.code = a.code ∧
      b.diags = a.diags ++ reports [f] := by
  by_cases hkind : f.kind.Valid
  · obtain ⟨l, hl⟩ := hkind.hasLayout
    obtain ⟨b, hprocess, hcode, hdiags⟩ := after_process (a := a) hl
    let c : Assembly := { b with log := b.log ++ [.applying l.name f.offset f.value] }
    have hnot : ¬ f.Fits c.code.size := hcode ▸ h
    have hfault : f.fault c.code.size = f.fault a.code.size := congrArg (f.fault ·.size) hcode
    rw [← complaints_eq, ← hdiags]
    refine ⟨c, ?_, hcode, rfl⟩
    unfold resolve
    rw [Assembly.after_bind, hprocess]
    simp only [Assembly.after_bind, Assembly.after_liftExcept, hl.layout, Assembly.after_emit]
    exact (after_apply_of_not_fits hnot f.value).trans (by rw [hfault])
  · have hl := FixupKind.layout_of_not_valid hkind
    have hprocess : a.after f.process = (.error (.invalidKind f.kind.raw), a) := by
      unfold process adjust
      simp only [Assembly.after_bind, Assembly.after_liftExcept, hl]
    have hsilent : reports [f] = [] := by
      rw [← complaints_eq]
      unfold complaints
      rw [hl]
    -- nothing is reported of it either, since it has no range to be out of
    rw [hsilent, List.append_nil]
    refine ⟨a, ?_, rfl, rfl⟩
    unfold resolve fault
    rw [Assembly.after_bind, hprocess, if_neg hkind]

/-! ## A batch

A batch is resolved fixup by fixup, each on what the ones before it leave. So it is enough to know
what one that fits leaves (`after_resolve`), and that one that does not fit is the end. -/

/-- What stands behind a batch that is resolved to its end goes on from what the batch leaves. -/
theorem after_resolveAll_append (h : a.after (resolveAll fs) = (.ok (), b)) (gs : List Fixup) :
    a.after (resolveAll (fs ++ gs)) = b.after (resolveAll gs) := by
  induction fs generalizing a with
  | nil =>
    cases h
    rfl
  | cons f fs ih =>
    rw [resolveAll, Assembly.after_bind] at h
    rw [List.cons_append, resolveAll, Assembly.after_bind]
    -- the whole batch has ended well, so its first fixup has
    cases hresolve : a.after f.resolve with
    | mk answer c =>
      rw [hresolve] at h
      cases answer with
      | error e => cases h
      | ok _ => exact ih h

/-- A batch whose fixups all fit is resolved to its end, and adds its reports. Induction on the
batch; resolving a fixup keeps the size of the code, so those behind it still fit. -/
theorem diags_resolveAll (hfits : ∀ f ∈ fs, f.Fits a.code.size) :
    ∃ b, a.after (resolveAll fs) = (.ok (), b) ∧ b.diags = a.diags ++ reports fs := by
  induction fs generalizing a with
  | nil => exact ⟨a, rfl, (List.append_nil _).symm⟩
  | cons f fs ih =>
    obtain ⟨b, hresolve, hsize, hdiags, _⟩ := after_resolve (hfits f List.mem_cons_self)
    have hrest : ∀ g ∈ fs, g.Fits b.code.size := by
      intro g hg
      rw [hsize]
      exact hfits g (List.mem_cons_of_mem f hg)
    obtain ⟨c, hresolveAll, hdiags'⟩ := ih hrest
    refine ⟨c, ?_, ?_⟩
    · rw [resolveAll, Assembly.after_bind, hresolve]
      exact hresolveAll
    · rw [hdiags', hdiags, complaints_eq, List.append_assoc, ← reports_cons]

/-- The first fixup that does not fit ends the resolving. The code is that of the batch before it,
and the report on it is the last one. -/
theorem after_resolveAll_stop (hfits : ∀ g ∈ fs, g.Fits a.code.size) (h : ¬ f.Fits a.code.size)
    (gs : List Fixup) :
    ∃ mid b, a.after (resolveAll fs) = (.ok (), mid) ∧ mid.diags = a.diags ++ reports fs ∧
      a.after (resolveAll (fs ++ f :: gs)) = (.error (f.fault a.code.size), b) ∧
      b.code = mid.code ∧ b.diags = mid.diags ++ reports [f] := by
  obtain ⟨mid, hresolveAll, hsize, _⟩ := after_resolveAll hfits
  obtain ⟨mid', hresolveAll', hdiags⟩ := diags_resolveAll hfits
  cases hresolveAll.symm.trans hresolveAll'
  rw [← hsize] at h
  obtain ⟨b, hresolve, hcode, hdiags'⟩ := after_resolve_of_not_fits h
  refine ⟨mid, b, hresolveAll, hdiags, ?_, hcode, hdiags'⟩
  rw [after_resolveAll_append hresolveAll, resolveAll, Assembly.after_bind, hresolve, hsize]

/-- A batch fits as a whole, or it has a first fixup that does not. It is the case distinction of
all that follows. -/
theorem fits_or_stop (fs : List Fixup) (size : Nat) :
    (∀ f ∈ fs, f.Fits size) ∨
      ∃ before f rest, fs = before ++ f :: rest ∧ (∀ g ∈ before, g.Fits size) ∧ ¬ f.Fits size := by
  cases hfind : fs.find? fun f => ¬ f.Fits size with
  | none =>
    left
    intro f hf
    simpa using List.find?_eq_none.1 hfind f hf
  | some f =>
    right
    -- the one that is found is the first, so all before it fit
    obtain ⟨hf, before, rest, hsplit, hbefore⟩ := List.find?_eq_some_iff_append.1 hfind
    refine ⟨before, f, rest, hsplit, ?_, by simpa using hf⟩
    intro g hg
    simpa using hbefore g hg

/-- A batch is resolved to its end only if all of it fits. Then the code has the bits that it had
and those that the fixups set, and the reports are those of all fixups. -/
theorem after_resolveAll_eq_ok (h : a.after (resolveAll fs) = (.ok (), b)) :
    (∀ f ∈ fs, f.Fits a.code.size) ∧ b.code.size = a.code.size ∧
      b.diags = a.diags ++ reports fs ∧
      ∀ p, b.code.bit p = true ↔ a.code.bit p = true ∨ ∃ f ∈ fs, f.Sets p := by
  cases fits_or_stop fs a.code.size with
  | inl hfits =>
    obtain ⟨c, hc, hsize, hbits⟩ := after_resolveAll hfits
    obtain ⟨d, hd, hdiags⟩ := diags_resolveAll hfits
    cases hc.symm.trans h
    cases hd.symm.trans h
    exact ⟨hfits, hsize, hdiags, hbits⟩
  | inr hstop =>
    obtain ⟨before, f, rest, rfl, hbefore, hf⟩ := hstop
    -- a batch that stops has not ended well
    obtain ⟨mid, c, _, _, hfault, _⟩ := after_resolveAll_stop hbefore hf rest
    cases hfault.symm.trans h

/-- Resolving a batch ends in one of two ways. If all fixups fit, it completes, and adds one report
for each fixup that is out of range, in order, whatever the code holds. Otherwise it ends with a
fault at the first fixup that does not fit, with the code as the fixups before it left it, and the
reports on these and on the fixup itself. -/
theorem resolveAll_reports (a : Assembly) (fs : List Fixup) :
    ((∀ f ∈ fs, f.Fits a.code.size) ∧
        ∃ b, a.after (resolveAll fs) = (.ok (), b) ∧ b.diags = a.diags ++ reports fs) ∨
      ∃ before f rest mid b, fs = before ++ f :: rest ∧ (∀ g ∈ before, g.Fits a.code.size) ∧
        ¬ f.Fits a.code.size ∧
        a.after (resolveAll before) = (.ok (), mid) ∧ mid.diags = a.diags ++ reports before ∧
        a.after (resolveAll fs) = (.error (f.fault a.code.size), b) ∧
        b.code = mid.code ∧ b.diags = mid.diags ++ reports [f] := by
  cases fits_or_stop fs a.code.size with
  | inl hfits => exact .inl ⟨hfits, diags_resolveAll hfits⟩
  | inr hstop =>
    obtain ⟨before, f, rest, rfl, hbefore, hf⟩ := hstop
    obtain ⟨mid, b, hmid, hmidDiags, hfault, hcode, hdiags⟩ :=
      after_resolveAll_stop hbefore hf rest
    exact .inr ⟨before, f, rest, mid, b, rfl, hbefore, hf, hmid, hmidDiags, hfault, hcode, hdiags⟩

end Fixup

end Lowering
