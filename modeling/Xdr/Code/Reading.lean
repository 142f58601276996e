/-
Patterns read as conditions on values, and the arms that a generated union selects.

A pattern that the type of the discriminant has no value for matches nothing.
-/
import Xdr.Code.Union
import Xdr.Value.Enum

namespace Xdr.Code

/-- a type that unions switch on -/
class Discriminant (Tag : Type) where
  reads : Pattern → Tag → Bool

export Discriminant (reads)

instance : Discriminant Int32 := ⟨fun
  | .literal text, v => Integer.read? text == some v.toInt
  | _, _ => false⟩

instance : Discriminant Bool := ⟨fun
  | .name "TRUE", v => v
  | .name "FALSE", v => !v
  | _, _ => false⟩

instance {e : EnumType} : Discriminant (EnumValue e) := ⟨fun
  | .tagged enum n, v => enum == e.name && n == v.code.toInt
  | .name tag, v => e.tags.any fun t => t.2 == tag && t.1 == v.code
  | .literal _, _ => false⟩

/-- a union type: its code, and the arms that have a payload under the names of their accessors -/
structure UnionType (Arm : Type) where
  code : UnionCode
  arms : List Arm
  accessor : Arm → String

namespace UnionType

variable {Arm : Type}

def selection {Tag : Type} [Discriminant Tag] (t : UnionType Arm) : Selection Tag Arm :=
  let s := t.code.selection fun p (v : Tag) => reads p v
  { admits := fun a => s.admits (t.accessor a)
    body := fun v => (s.body v).bind fun name => t.arms.find? fun a => t.accessor a == name
    valid := s.valid }

/-- a value of the type as text -/
def shownWith {Tag : Type} [Shown Tag] {Payload : Arm → Type} [(a : Arm) → Shown (Payload a)] (t : UnionType Arm)
    (u : UnionValue Tag Payload) : String := u.shownAs t.code.name t.code.tagName t.accessor

end UnionType

end Xdr.Code
