/-
Values of enums.

An enum is open: any number of 32 bits is a value, and the tags are names of some.
-/
import Xdr.Value.Scalar

namespace Xdr

structure EnumType where
  name : String
  /-- the numbers of the tags, in the order of declaration -/
  tags : List (Int32 × String)
deriving DecidableEq, Repr

structure EnumValue (e : EnumType) where
  code : Int32 := 0
deriving DecidableEq, Repr

namespace EnumValue

variable {e : EnumType}

/-- the first tag of that number -/
def tag? (v : EnumValue e) : Option String := e.tags.lookup v.code

def text (v : EnumValue e) : String := v.tag?.getD s!"unknown_{e.name}"

end EnumValue

variable {e : EnumType}

instance : Word32 (EnumValue e) where
  word v := v.code.toUInt32
  ofWord w := .ok ⟨w.toInt32⟩
  scalar v := .int v.code

instance : Shown (EnumValue e) := ⟨fun v => shownTagged e.name (shown v.code)⟩

end Xdr
