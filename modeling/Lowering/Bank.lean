import Lowering.Fault

/-!
# Lowering — register banks, classes and value mappings

A machine register belongs to one of two banks: a scalar register holds one value for all lanes,
a vector register one value for each lane. A register class names a width and, with it, the kind
of register that stores it. A value mapping is the demand made on one register operand: a bank
and a width.
-/

namespace Lowering

/-- The two register banks of the machine. Every mapping places a register operand in one of them,
and a copy is needed wherever one register is wanted in both. -/
inductive Bank where
  | scalar
  | vector
deriving DecidableEq

/-- What is known of a bank as a whole. A bank is known under a number and under a name; both are
fixed and neither is used twice. -/
structure BankInfo where
  id : Nat
  name : String
  /-- The width in bits of the widest class that the bank holds. -/
  maxWidth : Nat
deriving DecidableEq

namespace Bank

/-- The banks in the order of their numbers. Lookups by number and by name go along this list, so
that a bank added here can be found in both ways. -/
def all : List Bank :=
  [scalar, vector]

/-- The number of a bank: its place in `all`. -/
def id : Bank → Nat
  | scalar => 0
  | vector => 1

/-- The written name, as messages and printed mappings show it. -/
def name : Bank → String
  | scalar => "SGPR"
  | vector => "VGPR"

/-- The record of a bank. Both banks hold classes of up to 512 bits. -/
def info (b : Bank) : BankInfo :=
  { id := b.id, name := b.name, maxWidth := 512 }

/-- The bank of a number, which is a place in `all`; there is none past the last. -/
def ofId? (id : Nat) : Option Bank :=
  all[id]?

/-- The bank of a written name. Names are compared letter by letter, case included. -/
def ofName? (name : String) : Option Bank :=
  all.find? fun b => b.name == name

end Bank

/-- The bank of a number that has to be one. A number without a bank is a fault of the caller and
not bad input, so it is not answered by nothing. -/
def BankInfo.ofId (id : Nat) : Except Fault BankInfo :=
  match Bank.ofId? id with
  | some b => .ok b.info
  | none => .error (.invalidBank id)

/-- The register classes that a virtual register may be constrained to. A class fixes the width of a
register and, by the kind of register that stores it, the bank that the register starts in. -/
inductive RegClass where
  | sreg32
  | sreg64
  | sreg128
  | sreg256
  | sreg512
  | vgpr32
  | vreg64
  | vreg96
  | vreg128
  | vreg256
  | vreg512
deriving DecidableEq

namespace RegClass

/-- All classes, the scalar ones first. The list is what written names are looked up in. -/
def all : List RegClass :=
  [sreg32, sreg64, sreg128, sreg256, sreg512,
    vgpr32, vreg64, vreg96, vreg128, vreg256, vreg512]

/-- The written name. Scalar and vector classes of one width are told apart by it, and so are
classes of one kind and different widths. -/
def name : RegClass → String
  | sreg32 => "sreg_32"
  | sreg64 => "sreg_64"
  | sreg128 => "sreg_128"
  | sreg256 => "sreg_256"
  | sreg512 => "sreg_512"
  | vgpr32 => "vgpr_32"
  | vreg64 => "vreg_64"
  | vreg96 => "vreg_96"
  | vreg128 => "vreg_128"
  | vreg256 => "vreg_256"
  | vreg512 => "vreg_512"

/-- The width in bits of a value that the class stores. -/
def width : RegClass → UInt32
  | sreg32 | vgpr32 => 32
  | sreg64 | vreg64 => 64
  | vreg96 => 96
  | sreg128 | vreg128 => 128
  | sreg256 | vreg256 => 256
  | sreg512 | vreg512 => 512

/-- Whether the class consists of scalar registers. -/
def isScalar : RegClass → Bool
  | sreg32 | sreg64 | sreg128 | sreg256 | sreg512 => true
  | _ => false

/-- The class of a written name. -/
def ofName? (name : String) : Option RegClass :=
  all.find? fun c => c.name == name

/-- The name of a class is looked up as that class again, since no two classes share a name. This is
what lets the type of a register be read back from a listing. -/
theorem ofName?_name (c : RegClass) : ofName? c.name = some c := by
  cases c <;> decide

end RegClass

/-- The bank and the width demanded of one register operand. -/
structure ValueMapping where
  bank : Bank
  width : UInt32
deriving DecidableEq

namespace ValueMapping

/-- A demand for the scalar bank. -/
def scalar (width : UInt32) : ValueMapping :=
  ⟨.scalar, width⟩

/-- A demand for the vector bank. -/
def vector (width : UInt32) : ValueMapping :=
  ⟨.vector, width⟩

/-- The written form: bank and width in braces. -/
def text (v : ValueMapping) : String :=
  "\x7b" ++ v.bank.name ++ ":" ++ v.width.toNat.repr ++ "\x7d"

end ValueMapping

end Lowering
