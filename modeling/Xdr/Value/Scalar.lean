/-
Scalars: values that travel as one word of 32 or 64 bits.

Every word stands for a value of its type, except that a bool is 0 or 1. Floating-point numbers are kept as their words
and compared as numbers: zeros are equal whatever their signs, and what is no number equals nothing.
-/
import Xdr.Schema.Primitive
import Xdr.Value.Error
import Xdr.Value.Shown

namespace Xdr

/-! ## Floating-point numbers -/

/-- a floating-point number of 32 bits -/
structure Single where
  bits : UInt32 := 0
deriving DecidableEq, Repr

/-- a floating-point number of 64 bits -/
structure Double where
  bits : UInt64 := 0
deriving DecidableEq, Repr

/-- equal as numbers -/
instance : BEq Single := ⟨fun a b => Decimal.single.same a.bits.toNat b.bits.toNat⟩

/-- equal as numbers -/
instance : BEq Double := ⟨fun a b => Decimal.double.same a.bits.toNat b.bits.toNat⟩

instance : Shown Single := ⟨fun a => Decimal.text Decimal.single a.bits.toNat⟩
instance : Shown Double := ⟨fun a => Decimal.text Decimal.double a.bits.toNat⟩

/-! ## Snapshots -/

/-- a scalar of any type -/
inductive Scalar where
  | bool (v : Bool)
  | int (v : Int32)
  | unsignedInt (v : UInt32)
  | float (v : Single)
  | hyper (v : Int64)
  | unsignedHyper (v : UInt64)
  | double (v : Double)
deriving DecidableEq, Repr

namespace Scalar

/-- the same type and an equal value -/
def same : Scalar → Scalar → Bool
  | bool a, bool b => a == b
  | int a, int b => a == b
  | unsignedInt a, unsignedInt b => a == b
  | float a, float b => instBEqSingle.beq a b
  | hyper a, hyper b => a == b
  | unsignedHyper a, unsignedHyper b => a == b
  | double a, double b => instBEqDouble.beq a b
  | _, _ => false

/-- the type of the value itself, which a named type may stand for -/
def type : Scalar → Primitive
  | bool _ => .bool
  | int _ => .int
  | unsignedInt _ => .unsignedInt
  | float _ => .float
  | hyper _ => .hyper
  | unsignedHyper _ => .unsignedHyper
  | double _ => .double

end Scalar

instance : Shown Scalar := ⟨fun
  | .bool v => shown v
  | .int v => shown v
  | .unsignedInt v => shown v
  | .float v => shown v
  | .hyper v => shown v
  | .unsignedHyper v => shown v
  | .double v => shown v⟩

/-! ## Words -/

/-- a type whose values travel as words of 32 bits -/
class Word32 (α : Type) where
  word : α → UInt32
  ofWord : UInt32 → Except ValueError α
  scalar : α → Scalar

/-- a type whose values travel as words of 64 bits -/
class Word64 (α : Type) where
  word : α → UInt64
  ofWord : UInt64 → α
  scalar : α → Scalar

instance : Word32 Bool where
  word b := if b then 1 else 0
  ofWord w := if w = 0 then .ok false else if w = 1 then .ok true else .error (.notBool w)
  scalar := .bool

instance : Word32 Int32 where
  word v := v.toUInt32
  ofWord w := .ok w.toInt32
  scalar := .int

instance : Word32 UInt32 where
  word v := v
  ofWord w := .ok w
  scalar := .unsignedInt

instance : Word32 Single where
  word v := v.bits
  ofWord w := .ok ⟨w⟩
  scalar := .float

instance : Word64 Int64 where
  word v := v.toUInt64
  ofWord w := w.toInt64
  scalar := .hyper

instance : Word64 UInt64 where
  word v := v
  ofWord w := w
  scalar := .unsignedHyper

instance : Word64 Double where
  word v := v.bits
  ofWord w := ⟨w⟩
  scalar := .double

/-- replaces a value by the one that a word stands for -/
def setWord {α : Type} [Word32 α] (v : α) (w : UInt32) : α × Except ValueError Unit := settle v (Word32.ofWord w)

end Xdr
