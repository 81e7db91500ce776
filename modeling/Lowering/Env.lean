import Lowering.Bank

/-!
# Lowering — what surrounds an instruction

An environment answers what an instruction does not say of itself: the width of a register, the
class a register is constrained to, and whether the address of a memory access is the same in
every lane. The overrides replace single answers and leave the others alone.
-/

namespace Lowering

/-- The answers that mapping rules ask for. An instruction is placed by these alone: two
environments that answer alike on its registers place it alike. -/
structure Env where
  width : Reg → Option UInt32
  classOf : Reg → Option RegClass
  uniform : Instr → Bool

namespace Env

/-- The width of a register that has to have one. A rule that needs the width of a register whose
width is unknown cannot go on, and this is where it fails. -/
def resolveWidth (env : Env) (r : Reg) : Except Fault UInt32 :=
  match env.width r with
  | some w => .ok w
  | none => .error (.unresolvedWidth r)

/-- A width is resolved exactly if the environment knows it, so that what is proved about rules
never has to open `resolveWidth`. -/
theorem resolveWidth_eq_ok_iff {env : Env} {r : Reg} {w : UInt32} :
    env.resolveWidth r = .ok w ↔ env.width r = some w := by
  unfold resolveWidth
  split <;> simp_all

/-- One answer about uniformity for every instruction, whatever its memory accesses say. -/
def withUniform (env : Env) (answer : Bool) : Env :=
  { env with uniform := fun _ => answer }

/-- A new answer about the width of one register. A missing answer may be set as well, so that an
override can also take a width away. -/
def withWidth (env : Env) (r : Reg) (answer : Option UInt32) : Env :=
  { env with width := fun s => if s = r then answer else env.width s }

/-- A new answer about the class of one register; its width stays what it was. -/
def withClass (env : Env) (r : Reg) (answer : Option RegClass) : Env :=
  { env with classOf := fun s => if s = r then answer else env.classOf s }

end Env

end Lowering
