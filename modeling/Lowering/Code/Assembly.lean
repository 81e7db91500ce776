import Lowering.Code.Buffer
import Lowering.Code.Diagnostic
import Lowering.Level
import Lowering.Text.CharLiteral

/-!
# Lowering — code being assembled

The code so far, the diagnostics reported so far, and the log. Patching changes it step by step, and
what was changed before a fault stays changed.
-/

namespace Lowering

/-- What can be told of patching while it goes on. -/
inductive PatchEvent where
  /-- A fixup is about to be patched. -/
  | applying (kind : String) (offset : Nat) (value : Int64)
  /-- The field is not clear: it holds these bits, right aligned. -/
  | staleField (kind : String) (offset : Nat) (bits : Word)
  /-- A diagnostic was reported. -/
  | reported (d : Diagnostic)
deriving DecidableEq

namespace PatchEvent

/-- How much an event matters: a diagnostic is an error, and a field that is not clear is a
warning. -/
def level : PatchEvent → Level
  | applying .. => .debug
  | staleField .. => .warn
  | reported _ => .error

/-- The wording of an event. A diagnostic is shown with its place before it. -/
def text : PatchEvent → String
  | applying kind offset value =>
    "applying " ++ kind ++ " at offset " ++ offset.repr ++ " (value " ++ value.toInt.repr ++ ")"
  | staleField kind offset bits =>
    kind ++ " at offset " ++ offset.repr ++ ": field already holds 0x" ++ Text.hexText bits.toNat
      ++ ", bits will be merged"
  | reported d => d.loc.text ++ ": " ++ d.message

end PatchEvent

/-- The state that patching works on. The diagnostics are kept in the order in which they were
reported, the latest one last, and so is the log. -/
structure Assembly where
  code : CodeBuffer
  diags : List Diagnostic
  log : List PatchEvent

/-- A step of patching. Its faults do not undo what it did before: the state is under the fault and
not the other way round, so what a failing batch has patched so far stays patched. -/
abbrev Patching := ExceptT PatchFault (StateM Assembly)

namespace Assembly

/-- Nothing reported yet about some code. -/
def ofCode (code : CodeBuffer) : Assembly :=
  ⟨code, [], []⟩

/-- Whether anything was reported. -/
def hasErrors (a : Assembly) : Bool :=
  !a.diags.isEmpty

/-- The diagnostics, which are then no longer kept. -/
def takeDiags (a : Assembly) : List Diagnostic × Assembly :=
  (a.diags, { a with diags := [] })

/-- What a step answers and what it leaves. -/
def after (a : Assembly) {α : Type} (step : Patching α) : Except PatchFault α × Assembly :=
  step.run a

end Assembly

namespace Patching

/-- Logs one event. -/
def emit (e : PatchEvent) : Patching Unit :=
  modify fun a => { a with log := a.log ++ [e] }

/-- Reports a diagnostic. -/
def report (d : Diagnostic) : Patching Unit := do
  emit (.reported d)
  modify fun a => { a with diags := a.diags ++ [d] }

/-- Reads a word of the code. -/
def read (offset numBytes : Nat) : Patching Word := do
  (← get).code.read offset numBytes

/-- Writes a word into the code. -/
def write (offset numBytes : Nat) (word : Word) : Patching Unit := do
  let code ← (← get).code.write offset numBytes word
  modify fun a => { a with code }

end Patching

/-! ## What steps leave

Patching is followed step by step: a fault ends it with the assembly as the step before left it. -/

namespace Assembly

variable {α β : Type}

/-- A step that only computes leaves everything as it was, also where it fails. -/
theorem after_liftExcept (a : Assembly) (x : Except PatchFault α) :
    a.after (liftM x : Patching α) = (x, a) := rfl

/-- One step after another: the second works on what the first leaves, and is not reached if that
fails. -/
theorem after_bind (a : Assembly) (x : Patching α) (f : α → Patching β) :
    a.after (x >>= f) =
      match a.after x with
      | (.ok v, b) => b.after (f v)
      | (.error e, b) => (.error e, b) := by
  unfold after
  rw [ExceptT.run_bind]
  change (StateT.bind x.run _) a = _
  unfold StateT.bind
  obtain ⟨answer, b⟩ := x.run a
  cases answer <;> rfl

/-- A sequence succeeds exactly if both of its parts do, the second on what the first leaves. -/
theorem after_bind_eq_ok {a c : Assembly} {x : Patching α} {f : α → Patching β} {w : β} :
    a.after (x >>= f) = (.ok w, c) ↔
      ∃ v b, a.after x = (.ok v, b) ∧ b.after (f v) = (.ok w, c) := by
  rw [after_bind]
  obtain ⟨answer, b⟩ := a.after x
  cases answer with
  | error e => exact ⟨nofun, nofun⟩
  | ok v =>
    constructor
    · exact fun h => ⟨v, b, rfl, h⟩
    · rintro ⟨v', b', hx, h⟩
      cases hx
      exact h

theorem after_get (a : Assembly) : a.after (get : Patching Assembly) = (.ok a, a) := rfl

theorem after_modify (a : Assembly) (f : Assembly → Assembly) :
    a.after (modify f : Patching Unit) = (.ok (), f a) := rfl

theorem after_emit (a : Assembly) (e : PatchEvent) :
    a.after (Patching.emit e) = (.ok (), { a with log := a.log ++ [e] }) := rfl

/-- A report adds one diagnostic and one event, and leaves the code alone. -/
theorem after_report (a : Assembly) (d : Diagnostic) :
    a.after (Patching.report d) =
      (.ok (), { a with diags := a.diags ++ [d], log := a.log ++ [.reported d] }) := rfl

/-- Reading leaves everything as it was, whether the word is in the code or not. -/
theorem after_read (a : Assembly) (offset n : Nat) :
    a.after (Patching.read offset n) = (a.code.read offset n, a) := by
  unfold Patching.read
  simp only [after_bind, after_get, after_liftExcept]

/-- Writing changes the code alone, and a word that cannot be written leaves that as it was too. -/
theorem after_write (a : Assembly) (offset n : Nat) (w : Word) :
    a.after (Patching.write offset n w) =
      match a.code.write offset n w with
      | .ok code => (.ok (), { a with code })
      | .error e => (.error e, a) := by
  unfold Patching.write
  simp only [after_bind, after_get, after_liftExcept, after_modify]
  cases a.code.write offset n w <;> rfl

end Assembly

end Lowering
