import Lowering.Bank
import Lowering.Text.Numeral

/-!
# Lowering — register types

The type of a register in a listing: a scalar or a pointer of some width, or a register class. A
scalar is written with the letter s and its width, a pointer with the letter p and its width, and a
class by its name.
-/

namespace Lowering

/-- The type of a register. A class has a width as well, so every type does. -/
inductive RegType where
  | scalar (width : UInt32)
  | pointer (width : UInt32)
  | ofClass (c : RegClass)
deriving DecidableEq

namespace RegType

/-- The width in bits of a register of the type. -/
def width : RegType → UInt32
  | scalar w | pointer w => w
  | ofClass c => c.width

/-- The class that the type constrains a register to. -/
def class? : RegType → Option RegClass
  | ofClass c => some c
  | _ => none

/-- The written name of a type. -/
def text : RegType → String
  | scalar w => "s" ++ w.toNat.repr
  | pointer w => "p" ++ w.toNat.repr
  | ofClass c => c.name

/-- The width written after a letter. The digits may be any that make up a 32-bit number, leading
zeros included. -/
def sized? (letter : Char) : List Char → Option UInt32
  | [] => none
  | c :: digits => if c = letter then Text.decimal32? digits else none

/-- The type that a name stands for. The letter of a scalar and the letter of a pointer differ, and
no class has a name that reads as a width after one of them. -/
def ofName? (name : String) : Option RegType :=
  match sized? 's' name.toList, sized? 'p' name.toList with
  | some w, _ => some (scalar w)
  | none, some w => some (pointer w)
  | none, none => (RegClass.ofName? name).map ofClass

end RegType

end Lowering
