/-
Containers of variable and fixed length.

Setting the bytes or the length of a bounded container is checked against its bound before anything else. A container
can also be pushed to, past the bound; its next length is checked all the same.
-/
import Xdr.Schema.Primitive
import Xdr.Value.Error
import Xdr.Value.Shown

namespace Xdr

/-! ## Bytes -/

def checkBound (length : Nat) (bound : UInt32) : Except ValueError Unit :=
  if length > bound.toNat then .error (.tooLong length bound.toNat) else .ok ()

/-- what the bytes of a container are -/
inductive ByteKind where
  /-- well-formed text -/
  | text
  /-- any bytes -/
  | raw
deriving DecidableEq, Repr

namespace ByteKind

def primitive : ByteKind → Primitive
  | text => .string
  | raw => .opaqueBytes

def check : ByteKind → List UInt8 → Except ValueError Unit
  | raw, _ => .ok ()
  | text, bytes =>
    match Text.Utf8.decode bytes with
    | .ok _ => .ok ()
    | .error f => .error (.notText f)

end ByteKind

structure BoundedBytes (kind : ByteKind) (bound : UInt32) where
  content : List UInt8 := []
deriving DecidableEq, Repr

namespace BoundedBytes

variable {kind : ByteKind} {bound : UInt32}

/-- a container of those bytes, if they are short enough and of its kind -/
def ofBytes (kind : ByteKind) (bound : UInt32) (bytes : List UInt8) : Except ValueError (BoundedBytes kind bound) := do
  checkBound bytes.length bound
  kind.check bytes
  return ⟨bytes⟩

/-- replaces the content -/
def set (b : BoundedBytes kind bound) (bytes : List UInt8) : BoundedBytes kind bound × Except ValueError Unit :=
  settle b (ofBytes kind bound bytes)

/-- the content as text -/
def text (b : BoundedBytes kind bound) : String := Text.Utf8.text b.content

end BoundedBytes

/-- the name of the container of a type with a bound -/
def containerName (type : Primitive) (bound : UInt32) : String := s!"_{type.idlName}_{bound}"

instance {kind : ByteKind} {bound : UInt32} : Shown (BoundedBytes kind bound) := ⟨fun b =>
  shownTagged (containerName kind.primitive bound) (match kind with
    | .text => shown b.text
    | .raw => shown b.content)⟩

/-- the text of a stop at an item that is not there -/
def outOfRangeText (length index : Nat) : String :=
  s!"index out of bounds: the len is {length} but the index is {index}"

/-! ## Vectors -/

/-- cuts a list, or fills it up with blanks -/
def resize {α : Type} (blank : α) (n : Nat) (xs : List α) : List α := xs.take n ++ List.replicate (n - xs.length) blank

/-- a vector with a bound, of integers where nothing else is said -/
structure BoundedVec (bound : UInt32) (α : Type := Int32) where
  items : List α := []
deriving DecidableEq, Repr

namespace BoundedVec

variable {bound : UInt32} {α : Type}

def length (v : BoundedVec bound α) : UInt32 := v.items.length.toUInt32

/-- cuts the vector, or fills it up with default items -/
def setLength [Inhabited α] (v : BoundedVec bound α) (n : UInt32) : BoundedVec bound α × Except ValueError Unit :=
  settle v ((checkBound n.toNat bound).map fun _ => ⟨resize default n.toNat v.items⟩)

/-- adds an item, whatever the bound -/
def push (v : BoundedVec bound α) (x : α) : BoundedVec bound α := ⟨v.items ++ [x]⟩

/-- replaces an item that is there -/
def set? (v : BoundedVec bound α) (i : Nat) (x : α) : Option (BoundedVec bound α) :=
  if i < v.items.length then some ⟨v.items.set i x⟩ else none

end BoundedVec

instance {bound : UInt32} : Shown (BoundedVec bound) :=
  ⟨fun v => shownTagged (containerName .int bound) (shown v.items)⟩

/-! ## Arrays -/

/-- a fixed number of bytes -/
structure FixedBytes (n : Nat) where
  bytes : Vector UInt8 n := Vector.replicate n 0
deriving DecidableEq

namespace FixedBytes

variable {n : Nat}

def set? (a : FixedBytes n) (i : Nat) (b : UInt8) : Option (FixedBytes n) :=
  if h : i < n then some ⟨a.bytes.set i b h⟩ else none

/-- the array of exactly that many bytes -/
def ofList? (n : Nat) (bytes : List UInt8) : Option (FixedBytes n) :=
  if h : bytes.toArray.size = n then some ⟨⟨bytes.toArray, h⟩⟩ else none

def toList (a : FixedBytes n) : List UInt8 := a.bytes.toList

end FixedBytes

instance {n : Nat} : Shown (FixedBytes n) := ⟨fun a => shownTagged "XdrArray" (shown a.toList)⟩

end Xdr
