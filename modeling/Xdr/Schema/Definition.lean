/-
The declaration model: what a schema says, as written.

A `Definition` is a top-level definition or the body of a type declared inline; a `Decl` is one occurrence of a type.
Values, bounds and labels keep the text they were written with. Definitions and declarations contain one another, so
the two are one family of types.
-/
import Xdr.Schema.Primitive

namespace Xdr

/-- how a declaration wraps its type -/
inductive Qualifier where
  /-- `T x` -/
  | scalar
  /-- `T *x`, a value or none -/
  | optional
  /-- `T x[n]` -/
  | array
  /-- `T x<n>` or `T x<>` -/
  | vec
deriving DecidableEq, Repr

structure EnumTag where
  id : String
  value : String
deriving DecidableEq, Repr

/-- a remote procedure; its types are named only -/
structure Procedure where
  id : String
  number : String
  result : String
  args : List String
deriving DecidableEq, Repr

structure Version where
  id : String
  number : String
  procedures : List Procedure
deriving DecidableEq, Repr

structure Program where
  id : String
  number : String
  versions : List Version
deriving DecidableEq, Repr

/-- the first version of that name -/
def Program.version? (p : Program) (id : String) : Option Version := p.versions.find? fun v => v.id = id

mutual

inductive Definition where
  | const (id value : String)
  /-- the declared name is the new type's name -/
  | typedef (decl : Decl)
  | struct (id : String) (fields : List Decl)
  | enum (id : String) (tags : List EnumTag)
  | union (id tagId tagType : String) (arms : List Arm) (hasDefault : Bool)
  | program (p : Program)

/-- one occurrence of a type: a field, the target of a typedef, or the payload of an arm -/
structure Decl where
  /-- the declared name, empty for `void` -/
  id : String
  /-- the named type, empty when the type is declared inline -/
  typeName : String
  qualifier : Qualifier := .scalar
  /-- the length as written, or empty -/
  bound : String := ""
  /-- the inline definition of the type -/
  body : Option Definition := none

structure Arm where
  cases : List String
  isDefault : Bool
  decl : Decl

end

namespace Decl

def void : Decl := { id := "", typeName := Primitive.void.idlName }

/-- carries no value -/
def isVoid (d : Decl) : Bool := d.id == "" || d.typeName == Primitive.void.idlName

def isInline (d : Decl) : Bool := d.typeName == ""

end Decl

namespace Definition

def id : Definition → String
  | const id _ => id
  | typedef d => d.id
  | struct id _ => id
  | enum id _ => id
  | union id .. => id
  | program p => p.id

/-- the same definition under another name -/
def rename (name : String) : Definition → Definition
  | const _ v => const name v
  | typedef d => typedef { d with id := name }
  | struct _ fs => struct name fs
  | enum _ ts => enum name ts
  | union _ ti tt as hd => union name ti tt as hd
  | program p => program { p with id := name }

def kind : Definition → String
  | const .. => "const"
  | typedef _ => "typedef"
  | struct .. => "struct"
  | enum .. => "enum"
  | union .. => "union"
  | program _ => "program"

/-- the declarations directly in a definition -/
def decls : Definition → List Decl
  | typedef d => [d]
  | struct _ fs => fs
  | union _ _ _ as _ => as.map Arm.decl
  | _ => []

@[simp] theorem id_rename (name : String) (d : Definition) : (d.rename name).id = name := by
  cases d <;> rfl

@[simp] theorem kind_rename (name : String) (d : Definition) : (d.rename name).kind = d.kind := by
  cases d <;> rfl

end Definition

/-- every label of the arms that are not default -/
def labels (arms : List Arm) : List String := (arms.filter fun a => !a.isDefault).flatMap Arm.cases

end Xdr
