/-
What names stand for in a table: constants behind constants, types behind typedefs, and the values of bounds, lengths
and labels.

Constants and typedefs may name one another in a circle. `chase` follows such a relation and stops at the first name
that has no successor or was passed before, so every question has an answer.
-/
import Xdr.Code.Expr
import Xdr.Table

namespace Xdr

open Code

/-! ## Chains of names -/

/-- follows `next` for at most `fuel` steps, up to a name in `seen` -/
def chaseFrom (next : String → Option String) : Nat → List String → String → String
  | 0, _, x => x
  | fuel + 1, seen, x =>
    if x ∈ seen then x
    else match next x with
      | some y => chaseFrom next fuel (x :: seen) y
      | none => x

namespace Table

/-- the end of a chain in the table; every step but the last leaves a definition behind for good -/
def chase (t : Table) (next : Definition → Option String) (x : String) : String :=
  chaseFrom (fun x => (t.get? x).bind next) (t.definitions.size + 1) [] x

end Table

/-- the value of a constant, which may be another constant -/
def Definition.constValue? : Definition → Option String
  | .const _ v => some v
  | _ => none

/-- the type that a typedef renames; a typedef of `string` is a type of its own -/
def Definition.aliased? : Definition → Option String
  | .typedef ⟨_, type, .scalar, _, none⟩ => if type = Primitive.string.idlName then none else some type
  | _ => none

/-- the type that a typedef names, however qualified -/
def Definition.target? : Definition → Option String
  | .typedef ⟨_, type, _, _, none⟩ => some type
  | _ => none

namespace Table

/-- the end of a chain of constants -/
def resolve (t : Table) (expr : String) : String := t.chase Definition.constValue? expr

/-- the integer at the end of a chain of constants -/
def integer? (t : Table) (expr : String) : Option Int := Integer.read? (t.resolve expr)

/-- the first type that is no mere alias -/
def baseType (t : Table) (name : String) : String := t.chase Definition.aliased? name

/-- the enum that a type is -/
def enumType? (t : Table) (name : String) : Option String :=
  match t.get? (t.chase Definition.target? name) with
  | some (.enum id _) => some id
  | some (.typedef ⟨id, _, _, _, some (.enum ..)⟩) => some (underscored id)
  | _ => none

end Table

/-! ## Bounds and lengths -/

/-- the bound that stands for none -/
def unlimited : Int := 0xFFFFFFFF

/-- the bound of a container -/
inductive Bound where
  | none
  | limit (n : Nat)
  /-- an expression that is no 32-bit integer, as written -/
  | verbatim (expr : String)
deriving DecidableEq, Repr

/-- the text of a bound, if there is one -/
def Bound.text? : Bound → Option String
  | .none => Option.none
  | .limit n => some (toString n)
  | .verbatim expr => some expr

namespace Table

def bound (t : Table) (expr : String) : Bound :=
  if t.resolve expr = "" then .none
  else match t.integer? expr with
    | some v => if v = unlimited then .none else if 0 ≤ v ∧ v < unlimited then .limit v.toNat else .verbatim expr
    | none => .verbatim expr

def length (t : Table) (expr : String) : Length :=
  match t.integer? expr with
  | some v => .count v
  | none => .constant expr

/-! ## Labels and values -/

/-- the pattern of a label, under the enum that the discriminant is -/
def pattern (t : Table) (enum : Option String) (label : String) : Pattern :=
  match t.integer? label, enum with
  | some v, some e => .tagged e v
  | some _, none => .literal (t.resolve label)
  | none, _ => .name label

/-- a number of 32 bits, taken as signed -/
def wrap32 (v : Int) : Int := v.bmod 0x100000000

/-- the number of an enum tag -/
def tagValue (t : Table) (value : String) : TagValue :=
  match t.integer? value with
  | some v => .number (wrap32 v)
  | none => if (t.enumOf? value).isSome then .tag value else .constant value

/-- the type of a constant; what is neither an integer nor an enum tag is taken for an `int` -/
def constType (t : Table) (value : String) : ConstType :=
  match t.integer? value with
  | some v => .integer (IntType.ofValue v)
  | none =>
    match t.enumOf? (t.resolve value) with
    | some e => .enum e
    | none => .integer .i32

/-- the value of a constant as written, a literal or a name -/
def constValue (value : String) : ConstValue :=
  if (Integer.read? value).isSome then .literal value else .name value

end Table

end Xdr
