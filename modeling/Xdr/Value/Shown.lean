/-
Values as diagnostic text: numbers in decimal, texts in quotes, lists in brackets, and structures with the names of
their types and fields.
-/
import Xdr.Decimal
import Xdr.Text.Quoted

namespace Xdr

class Shown (α : Type) where
  shown : α → String

export Shown (shown)

instance : Shown Bool := ⟨fun b => if b then "true" else "false"⟩
instance : Shown Int32 := ⟨fun v => toString v.toInt⟩
instance : Shown Int64 := ⟨fun v => toString v.toInt⟩
instance : Shown UInt8 := ⟨fun v => toString v.toNat⟩
instance : Shown UInt32 := ⟨fun v => toString v.toNat⟩
instance : Shown UInt64 := ⟨fun v => toString v.toNat⟩
instance : Shown String := ⟨Text.quoted⟩
instance : Shown Unit := ⟨fun _ => "()"⟩

instance {α : Type} [Shown α] : Shown (List α) := ⟨fun xs => "[" ++ ", ".intercalate (xs.map shown) ++ "]"⟩

/-- a value behind the name of its constructor -/
def shownTagged (name body : String) : String := s!"{name}({body})"

instance {α : Type} [Shown α] : Shown (Option α) := ⟨fun
  | some a => shownTagged "Some" (shown a)
  | none => "None"⟩

/-- a structure, given the texts of its fields -/
def shownFields (name : String) (fields : List (String × String)) : String :=
  s!"{name} \x7b " ++ ", ".intercalate (fields.map fun f => s!"{f.1}: {f.2}") ++ " \x7d"

end Xdr
