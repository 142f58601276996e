/-
The built-in types of the schema language, and the type a value of each is held in.
-/
namespace Xdr

inductive Primitive where
  | int | unsignedInt | hyper | unsignedHyper | float | double | bool | string | opaqueBytes | void
deriving DecidableEq, Repr

namespace Primitive

def all : List Primitive :=
  [.int, .unsignedInt, .hyper, .unsignedHyper, .float, .double, .bool, .string, .opaqueBytes, .void]

/-- the spelling in a schema -/
def idlName : Primitive → String
  | .int => "int"
  | .unsignedInt => "unsigned int"
  | .hyper => "hyper"
  | .unsignedHyper => "unsigned hyper"
  | .float => "float"
  | .double => "double"
  | .bool => "bool"
  | .string => "string"
  | .opaqueBytes => "opaque"
  | .void => "void"

/-- the type in generated text; for opaque data, the type of one element -/
def storage : Primitive → String
  | .int => "i32"
  | .unsignedInt => "u32"
  | .hyper => "i64"
  | .unsignedHyper => "u64"
  | .float => "f32"
  | .double => "f64"
  | .bool => "bool"
  | .string => "String"
  | .opaqueBytes => "u8"
  | .void => "XdrVoid"

def ofIdlName? (name : String) : Option Primitive := all.find? fun p => p.idlName = name

/-- strings and opaque data are read and written as bytes -/
def isByteSequence : Primitive → Bool
  | .string | .opaqueBytes => true
  | _ => false

@[simp] theorem ofIdlName?_idlName (p : Primitive) : ofIdlName? p.idlName = some p := by
  cases p <;> decide

theorem idlName_of_ofIdlName? {name : String} {p : Primitive} (h : ofIdlName? name = some p) : p.idlName = name := by
  simpa using List.find?_some h

end Primitive

end Xdr
