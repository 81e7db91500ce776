import Lowering.Proofs.BatchReports
import Lowering.Proofs.WordAccess

/-!
# Lowering — code that is emitted later

Patching reads and writes words that lie inside the code, so it neither sees nor changes what is
emitted behind the code. A step that succeeds does the same with more code behind its own
(`Patching.Inside`); this holds of reading and of writing a word, sequences of steps inherit it
(`Patching.Inside.bind`), and so do fixups and batches of them. Whether a batch is resolved before or
after more code is emitted makes no difference, to the code and to all that is reported and logged
(`Fixup.resolveAll_emitted`).
-/

namespace Lowering

/-! ## Emitting code

Whatever is emitted, bytes are put behind those that are there. So it is enough to look at code with
some bytes behind it. -/

/-- One way to make the code longer. -/
inductive Emission where
  | append (bytes : List UInt8)
  | word (w : UInt32)
  | zeroes (n : Nat)
  | padding (n : Nat)
deriving DecidableEq

namespace Emission

/-- The code with what is emitted at its end. -/
def onto (b : CodeBuffer) : Emission → CodeBuffer
  | append bytes => b.append bytes
  | word w => b.emit w
  | zeroes n => b.zeroFill n
  | padding n => b.pad n

/-- The bytes that are emitted. -/
def bytes : Emission → List UInt8
  | append bytes => bytes
  | word w => wordBytes 4 (w.toBitVec.setWidth 64)
  | zeroes n | padding n => List.replicate n 0

theorem onto_eq (b : CodeBuffer) (e : Emission) : onto b e = b.append e.bytes := by
  cases e <;> rfl

theorem foldl_onto (b : CodeBuffer) (es : List Emission) :
    es.foldl onto b = b.append (es.flatMap bytes) := by
  induction es generalizing b with
  | nil => exact congrArg CodeBuffer.mk (List.append_nil b.bytes).symm
  | cons e es ih => rw [List.foldl_cons, ih, onto_eq, CodeBuffer.append_append, List.flatMap_cons]

end Emission

namespace Assembly

/-- The assembly after some code was emitted. -/
def emitAll (a : Assembly) (es : List Emission) : Assembly :=
  { a with code := es.foldl Emission.onto a.code }

/-- The assembly with more bytes behind its code. -/
def grown (a : Assembly) (bytes : List UInt8) : Assembly :=
  { a with code := a.code.append bytes }

theorem emitAll_eq (a : Assembly) (es : List Emission) :
    a.emitAll es = a.grown (es.flatMap Emission.bytes) := by
  unfold emitAll grown
  rw [Emission.foldl_onto]

end Assembly

/-- What a write does to a word inside the code, it does with more bytes behind the code as well. -/
theorem CodeBuffer.write_append {b c : CodeBuffer} {offset n : Nat} {w : Word}
    (h : b.write offset n w = .ok c) (bytes : List UInt8) :
    (b.append bytes).write offset n w = .ok (c.append bytes) := by
  obtain ⟨hn, hin⟩ := write_answers_iff.1 ⟨c, h⟩
  obtain ⟨hsize, hbits⟩ := write_eq_ok h
  obtain ⟨d, hd⟩ : ∃ d, (b.append bytes).write offset n w = .ok d := by
    refine write_answers_iff.2 ⟨hn, ?_⟩
    rw [size_append]
    omega
  obtain ⟨hsize', hbits'⟩ := write_eq_ok hd
  have hdc : d = c.append bytes := by
    refine ext_of_bit ?_ fun p => ?_
    · rw [hsize', size_append, size_append, hsize]
    · rw [hbits', bit_append, bit_append, hbits, hsize]
      -- the word ends before the bytes begin
      by_cases hp : 8 * offset ≤ p ∧ p < 8 * (offset + n)
      · rw [if_pos hp, if_pos (by omega), if_pos hp]
      · rw [if_neg hp, if_neg hp]
  rw [hd, hdc]

/-! ## Steps that stay inside the code

`Patching.Inside` is what the steps have in common that do not see the end of the code. It is closed
under sequences and choices, so it holds of a program of steps by its shape alone, and only reading
and writing a word need an argument. -/

namespace Patching

variable {α β : Type}

/-- With more bytes behind the code, the step answers the same and leaves the same in front of
them. -/
def Inside (x : Patching α) : Prop :=
  ∀ ⦃a b : Assembly⦄ ⦃v : α⦄ (bytes : List UInt8), a.after x = (.ok v, b) →
    (a.grown bytes).after x = (.ok v, b.grown bytes)

namespace Inside

/-- Two steps in a row stay inside if each of them does. -/
theorem bind {x : Patching α} {f : α → Patching β} (hx : Inside x) (hf : ∀ v, Inside (f v)) :
    Inside (x >>= f) := by
  intro a c w bytes h
  obtain ⟨v, b, hfirst, hsecond⟩ := Assembly.after_bind_eq_ok.1 h
  exact Assembly.after_bind_eq_ok.2 ⟨v, b.grown bytes, hx bytes hfirst, hf v bytes hsecond⟩

theorem pure (v : α) : Inside (pure v : Patching α) := by
  intro a b w bytes h
  cases h
  rfl

theorem liftExcept (x : Except PatchFault α) : Inside (liftM x : Patching α) := by
  intro a b v bytes h
  rw [Assembly.after_liftExcept] at h ⊢
  cases h
  rfl

theorem emit (e : PatchEvent) : Inside (Patching.emit e) := by
  intro a b v bytes h
  rw [Assembly.after_emit] at h ⊢
  cases h
  rfl

theorem report (d : Diagnostic) : Inside (Patching.report d) := by
  intro a b v bytes h
  rw [Assembly.after_report] at h ⊢
  cases h
  rfl

/-- A choice stays inside if both of its branches do. What decides it may be what was read. -/
theorem ite {p : Prop} [Decidable p] {x y : Patching α} (hx : Inside x) (hy : Inside y) :
    Inside (if p then x else y) := by
  split
  · exact hx
  · exact hy

/-- A word that lies inside the code is the same with more bytes behind it. -/
theorem read (offset n : Nat) : Inside (Patching.read offset n) := by
  intro a b w bytes h
  rw [Assembly.after_read] at h ⊢
  obtain ⟨hread, rfl⟩ := Prod.mk.inj h
  exact Prod.ext (CodeBuffer.read_append hread bytes) rfl

/-- A word that lies inside the code is written in the same place. -/
theorem write (offset n : Nat) (w : Word) : Inside (Patching.write offset n w) := by
  intro a b v bytes h
  rw [Assembly.after_write] at h ⊢
  cases hwrite : a.code.write offset n w with
  | error e =>
    rw [hwrite] at h
    cases h
  | ok code =>
    rw [hwrite] at h
    cases h
    -- writing and then appending is appending and then writing
    have hgrown : (a.grown bytes).code.write offset n w = .ok (code.append bytes) :=
      CodeBuffer.write_append hwrite bytes
    rw [hgrown]
    rfl

end Inside

end Patching

/-! ## Fixups

The programs that patching consists of, each put together from the steps above as it is defined. -/

namespace Fixup

open Patching (Inside)

theorem adjust_inside (f : Fixup) (value : Int64) (sink : Bool) : Inside (f.adjust value sink) := by
  refine (Inside.liftExcept _).bind fun l => .ite ?_ (.liftExcept _)
  exact (Inside.report _).bind fun _ => .pure 0

/-- A fixup is patched by reading one word and writing it. -/
theorem apply_inside (f : Fixup) (value : Int64) : Inside (f.apply value) := by
  unfold apply
  refine (Inside.liftExcept _).bind fun l => (Inside.liftExcept _).bind fun stored =>
    (Inside.liftExcept _).bind fun mask => (Inside.read _ _).bind fun word => ?_
  refine Inside.ite ?_ (.write _ _ _)
  exact (Inside.emit _).bind fun _ => .write _ _ _

/-- A fixup of a batch is checked and patched, and an event is logged in between. -/
theorem resolve_inside (f : Fixup) : Inside f.resolve :=
  ((adjust_inside f f.value true).bind fun _ => .pure ()).bind fun _ =>
    (Inside.liftExcept _).bind fun _ => (Inside.emit _).bind fun _ => apply_inside f f.value

/-- A batch stays inside the code. Induction on the batch. -/
theorem resolveAll_inside (fs : List Fixup) : Inside (resolveAll fs) := by
  induction fs with
  | nil => exact .pure ()
  | cons f fs ih => exact (resolve_inside f).bind fun _ => ih

/-- A batch that can be resolved is resolved in the same way after more code was emitted: the code
is what it would be if the same had been emitted afterwards, and the reports and the log are the
same. -/
theorem resolveAll_emitted {a b : Assembly} {fs : List Fixup}
    (h : a.after (resolveAll fs) = (.ok (), b)) (es : List Emission) :
    (a.emitAll es).after (resolveAll fs) = (.ok (), b.emitAll es) := by
  rw [Assembly.emitAll_eq, Assembly.emitAll_eq]
  exact resolveAll_inside fs _ h

/-- A branch out of its range in the last word of the code, and a byte of data over its last byte,
with code of every kind emitted behind them. -/
theorem resolveAll_emitted_end :
    let a := Assembly.ofCode ⟨[0xff, 0xff, 0xff, 0xff, 0, 0, 0, 0x80]⟩
    let fs : List Fixup := [⟨.branch, 4, 600000, ⟨3, 7⟩⟩, ⟨.data1, 7, 1, .unknown⟩]
    let es : List Emission := [.word 0xffffffff, .zeroes 1, .append [0x5c], .padding 2]
    ∃ b, a.after (resolveAll fs) = (.ok (), b) ∧
      (a.emitAll es).after (resolveAll fs) = (.ok (), b.emitAll es) ∧
      (b.emitAll es).code.size = 16 ∧ (b.emitAll es).code.bit 39 = true ∧ b.diags.length = 1 := by
  intro a fs es
  have hfits : ∀ f ∈ fs, f.Fits a.code.size := by decide
  obtain ⟨b, hb, hsize, _⟩ := after_resolveAll hfits
  obtain ⟨_, _, hdiags, hbits⟩ := after_resolveAll_eq_ok hb
  have hcode : (b.emitAll es).code = b.code.append (es.flatMap Emission.bytes) :=
    Emission.foldl_onto b.code es
  refine ⟨b, hb, resolveAll_emitted hb es, ?_, ?_, ?_⟩
  · rw [hcode, CodeBuffer.size_append, hsize]
    rfl
  · -- bit 7 of the word of the branch, which holds bit 2 of its value
    rw [hcode, CodeBuffer.bit_append, if_pos (by rw [hsize]; decide), hbits]
    exact .inr ⟨_, List.mem_cons_self, by decide⟩
  · rw [hdiags]
    decide

end Fixup

end Lowering
