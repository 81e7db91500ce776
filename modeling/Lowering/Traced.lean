import Lowering.Event

/-!
# Lowering — results with a log

A traced computation ends with a value or a fault, and either way it has left a log. The result
of a computation does not depend on the log: `Traced.result` turns sequencing into sequencing
(`Traced.result_bind`), so a statement about results never has to mention events.
-/

namespace Lowering

/-- A value or a fault, with what was logged on the way to it. A fault does not take back what was
logged before. -/
structure Traced (α : Type) where
  log : List Event
  result : Except Fault α

namespace Traced

variable {α β : Type}

/-- A value that needed no work. -/
def pure (a : α) : Traced α :=
  ⟨[], .ok a⟩

/-- First the one, then the other; a fault ends both, and what was logged before it stays. -/
def bind (x : Traced α) (f : α → Traced β) : Traced β :=
  match x.result with
  | .ok a => ⟨x.log ++ (f a).log, (f a).result⟩
  | .error e => ⟨x.log, .error e⟩

instance : Monad Traced where
  pure := pure
  bind := bind

/-- A computation that logs nothing. -/
def ofExcept (x : Except Fault α) : Traced α :=
  ⟨[], x⟩

instance : MonadLift (Except Fault) Traced := ⟨ofExcept⟩

/-- Logs one event. -/
def emit (e : Event) : Traced Unit :=
  ⟨[e], .ok ()⟩

/-! ## Results and logs of sequences -/

@[simp] theorem result_emit (e : Event) : (emit e).result = .ok () := rfl

/-- The result of a sequence is the sequence of the results. With this, statements about results are
freed of logs by rewriting. -/
@[simp] theorem result_bind (x : Traced α) (f : α → Traced β) :
    (x >>= f).result = x.result >>= fun a => (f a).result := by
  change (bind x f).result = _
  unfold bind
  cases x.result <;> rfl

/-- A traced sequence succeeds exactly if both of its parts do; the log plays no part in it. -/
theorem bind_eq_ok {x : Traced α} {f : α → Traced β} {b : β} :
    (x >>= f).result = .ok b ↔ ∃ a, x.result = .ok a ∧ (f a).result = .ok b := by
  rw [result_bind]
  cases x.result with
  | ok a => exact ⟨fun h => ⟨a, rfl, h⟩, fun ⟨_, ha, h⟩ => by cases ha; exact h⟩
  | error e => exact ⟨nofun, fun ⟨_, ha, _⟩ => nomatch ha⟩

end Traced

end Lowering
