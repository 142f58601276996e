/-
Values whose type is asked for while the program runs.

A probe asks for one type; it sees the value, and can replace it, only if that is the value's own type.
-/
import Xdr.Value.Scalar

namespace Xdr

inductive Dynamic where
  | scalar (v : Scalar)
  | text (s : String)
  | void
deriving DecidableEq, Repr

namespace Dynamic

def type : Dynamic → Primitive
  | scalar v => v.type
  | text _ => .string
  | void => .void

/-- an integer as a value of a type; what does not fit wraps. There is none of a floating-point or byte type. -/
def ofInt? (v : Int) : Primitive → Option Dynamic
  | .bool => some (scalar (.bool (v != 0)))
  | .int => some (scalar (.int (Int32.ofInt v)))
  | .unsignedInt => some (scalar (.unsignedInt (UInt32.ofInt v)))
  | .hyper => some (scalar (.hyper (Int64.ofInt v)))
  | .unsignedHyper => some (scalar (.unsignedHyper (UInt64.ofInt v)))
  | .string => some (text (toString v))
  | .void => some void
  | .float | .double | .opaqueBytes => none

/-- the value, if it is of that type -/
def as? (d : Dynamic) (p : Primitive) : Option Dynamic := if d.type = p then some d else none

/-- writes through a probe for the type of the new value -/
def write (d new : Dynamic) : Dynamic := if d.type = new.type then new else d

end Dynamic

instance : Shown Dynamic := ⟨fun
  | .scalar v => shown v
  | .text s => shown s
  | .void => shown ()⟩

end Xdr
