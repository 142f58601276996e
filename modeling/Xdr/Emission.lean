/-
Generation of a table, definition by definition.

An `Emission` grows: fragments in the order of generation, the names of the types that were generated on the way, and
the events. A type declared inline and a bounded container are generated when a declaration first asks for them, before
the definition that holds the declaration; each goes by its name, and a name that is claimed is not generated again.
-/
import Std.Data.HashSet
import Xdr.Code.Fragment
import Xdr.Event
import Xdr.Resolve

namespace Xdr

open Code

structure Emission where
  fragments : Array Fragment := #[]
  /-- the names of inline types and containers so far -/
  names : Std.HashSet String := {}
  events : Array Event := #[]

namespace Emission

def report (e : Event) : StateM Emission Unit := modify fun s => { s with events := s.events.push e }

def push (e : Event) (f : Fragment) : StateM Emission Unit := do
  report e
  modify fun s => { s with fragments := s.fragments.push f }

/-- claims a name, and tells if it was free -/
def claim (name : String) : StateM Emission Bool := fun s =>
  (!s.names.contains name, { s with names := s.names.insert name })

end Emission

open Emission

namespace Table

variable (t : Table)

/-- the bound of a container; a bound that is no number is reported -/
def boundOf (expr : String) : StateM Emission Bound := do
  match t.bound expr with
  | .verbatim e =>
    report (.looseBound e)
    return .verbatim e
  | b => return b

/-- the type of a declaration, its bound left aside -/
def container (q : Qualifier) (base length : String) : TypeExpr :=
  match q with
  | .scalar => .named base
  | .optional => .optional base
  | .array => .array base (t.length length)
  | .vec => .vec base

/-- letters, digits and underscores of a text, with underscores for the rest -/
def wordOf (text : String) : String := text.map fun c => if c.isAlphanum then c else '_'

/-- the name of the container of a base type with a bound -/
def wrapperName (base bound : String) : String :=
  underscored ((t.baseType base).map fun c => if c = ' ' then '_' else c) ++ "_" ++ wordOf bound

/-- the container of a base type with a bound, generated on the first demand for its name -/
def materialize (q : Qualifier) (base bound : String) : StateM Emission TypeExpr := do
  let name := t.wrapperName base bound
  if ← claim name then
    let ofBytes := (Primitive.ofIdlName? base).any Primitive.isByteSequence
    push (.materialized name bound) (.wrapper name (t.container q base "") bound ofBytes)
  return .wrapper name

/-- variable-length types have bounds: vectors, and strings -/
def isBounded (q : Qualifier) (base : String) : Bool :=
  q = .vec || (q = .scalar && base == Primitive.string.idlName)

/-- the type of a declaration of a base type -/
def typeOf (q : Qualifier) (base bound : String) : StateM Emission TypeExpr := do
  if isBounded q base then
    match (← t.boundOf bound).text? with
    | some b => t.materialize q base b
    | none => return t.container q base bound
  else return t.container q base bound

end Table

mutual

/-- generates a definition under `name` -/
def Definition.emitAs (t : Table) (name : String) : Definition → StateM Emission Unit
  | .const _ value => push (.generated "const" name) (.const name (t.constType value) (Table.constValue value))
  | .typedef d => do
    let type ← d.typeAs t (underscored name)
    push (.generated "typedef" name) (.alias name type)
  | .struct _ fields => do
    let members ← emitFields t name fields
    push (.generated "struct" name) (.struct name members)
  | .enum _ tags => push (.generated "enum" name) (.enum name (tags.map fun g => ⟨g.id, t.tagValue g.value⟩))
  | .union _ tagId tagType arms hasDefault => do
    let arms ← emitArms t name (t.enumType? tagType) arms
    push (.generated "union" name) (.union ⟨name, tagId, tagType, arms, hasDefault⟩)
  | .program _ => report (.skipped name)

/-- the type of a declaration; a type declared inline is generated under `name` -/
def Decl.typeAs (t : Table) (name : String) : Decl → StateM Emission TypeExpr
  | ⟨_, type, q, bound, none⟩ => t.typeOf q type bound
  | ⟨_, _, q, bound, some b⟩ => do
    if ← claim name then b.emitAs t name
    t.typeOf q name bound

def emitFields (t : Table) (parent : String) : List Decl → StateM Emission (List Member)
  | [] => return []
  | d :: ds => do
    let type ← d.typeAs t (memberTypeName parent d.id)
    return ⟨d.id, type⟩ :: (← emitFields t parent ds)

def emitArms (t : Table) (parent : String) (enum : Option String) : List Arm → StateM Emission (List UnionArm)
  | [] => return []
  | ⟨labels, isDefault, d⟩ :: as => do
    let payload ← if d.isVoid then pure none else do
      let type ← d.typeAs t (memberTypeName parent d.id)
      pure (some ⟨d.id, type⟩)
    return ⟨labels.map (t.pattern enum), isDefault, payload⟩ :: (← emitArms t parent enum as)

end

/-- generates a definition under its own name -/
def Definition.emit (t : Table) (d : Definition) : StateM Emission Unit := d.emitAs t d.id

namespace Table

/-- generates every definition, in the order of discovery -/
def emit (t : Table) : StateM Emission Unit := t.definitions.toList.forM fun d => d.emit t

/-- all that is generated for the table -/
def emission (t : Table) : Emission := (t.emit {}).2

end Table

end Xdr
