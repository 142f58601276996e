/-
Names of types that a schema declares inline.

Under a typedef the name is the typedef's own behind an underscore; elsewhere it is the parent's name and the member's.
A name that begins with an underscore gets no second one.
-/
import Xdr.Schema.Definition

namespace Xdr

def underscored (name : String) : String := if name.startsWith "_" then name else "_" ++ name

/-- the type declared inline at `member` of a definition named `parent` -/
def memberTypeName (parent member : String) : String := underscored parent ++ "_" ++ member

/-- the type declared inline at `member` of `d` -/
def Definition.inlineName (d : Definition) (member : String) : String :=
  match d with
  | .typedef _ => underscored member
  | _ => memberTypeName d.id member

end Xdr
