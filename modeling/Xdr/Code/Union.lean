/-
Generated unions.

A union becomes a struct of the discriminant and, where an arm has a payload, a slot for one; an accessor for each arm
with a payload; a test for valid discriminants; and a dispatch on the discriminant. Accessor, test and dispatch choose
among the arms each in its own way: `guard`, `validity` and `cases` with `fallback`. `selection` is what they choose
under a reading of the patterns.
-/
import Xdr.Code.Expr
import Xdr.Code.Layout
import Xdr.Value.Union

namespace Xdr.Code

/-- a name with a type: a field, or the payload of an arm -/
structure Member where
  name : String
  type : TypeExpr
deriving DecidableEq, Repr

structure UnionArm where
  patterns : List Pattern
  isDefault : Bool
  /-- none for a void arm -/
  payload : Option Member
deriving DecidableEq, Repr

structure UnionCode where
  name : String
  tagName : String
  tagType : String
  arms : List UnionArm
  hasDefault : Bool
deriving DecidableEq, Repr

/-- a condition on the discriminant -/
inductive Guard where
  | always
  | among (ps : List Pattern)
  | outside (ps : List Pattern)
deriving DecidableEq, Repr

namespace UnionCode

def explicitArms (u : UnionCode) : List UnionArm := u.arms.filter fun a => !a.isDefault

/-- the patterns of every arm that is not default -/
def explicit (u : UnionCode) : List Pattern := u.explicitArms.flatMap UnionArm.patterns

def payloads (u : UnionCode) : List Member := u.arms.filterMap UnionArm.payload

def hasSlot (u : UnionCode) : Bool := !u.payloads.isEmpty

/-- when the accessor of an arm lets through; a default arm that is alone is open to every discriminant -/
def guard (u : UnionCode) (a : UnionArm) : Guard :=
  if a.isDefault then if u.arms.length > 1 then .outside u.explicit else .always
  else .among a.patterns

/-- when the discriminant selects some arm -/
def validity (u : UnionCode) : Guard := if u.hasDefault then .always else .among u.explicit

/-- the cases of the dispatch, in order, each with the accessor it calls -/
def cases (u : UnionCode) : List (List Pattern × Option String) :=
  u.explicitArms.map fun a => (a.patterns, a.payload.map Member.name)

/-- the accessor called where no case matches -/
def fallback (u : UnionCode) : Option String :=
  (u.arms.find? UnionArm.isDefault).bind fun a => a.payload.map Member.name

end UnionCode

/-! ## What is chosen -/

variable {Tag : Type}

/-- some alternative matches -/
def anyMatches (reads : Pattern → Tag → Bool) (ps : List Pattern) (v : Tag) : Bool := ps.any fun p => reads p v

def Guard.admits (reads : Pattern → Tag → Bool) (v : Tag) : Guard → Bool
  | .always => true
  | .among ps => anyMatches reads ps v
  | .outside ps => !anyMatches reads ps v

namespace UnionCode

/-- the arm that has the accessor of that name -/
def armOf? (u : UnionCode) (accessor : String) : Option UnionArm :=
  u.arms.find? fun a => a.payload.any fun m => m.name == accessor

/-- the accessor that the dispatch calls -/
def dispatched (u : UnionCode) (reads : Pattern → Tag → Bool) (v : Tag) : Option String :=
  match u.cases.find? fun c => anyMatches reads c.1 v with
  | some c => c.2
  | none => u.fallback

/-- what the parts of the union choose, when the patterns are read so; arms go by the names of their accessors -/
def selection (u : UnionCode) (reads : Pattern → Tag → Bool) : Selection Tag String where
  admits accessor v := (u.armOf? accessor).any fun a => (u.guard a).admits reads v
  body v := u.dispatched reads v
  valid v := u.validity.admits reads v

end UnionCode

/-! ## Text -/

open Layout

/-- the condition as an expression on the discriminant -/
def Guard.text (subject : String) : Guard → String
  | .always => "true"
  | .among ps => s!"matches!({subject}, {patternsText ps})"
  | .outside ps => s!"!matches!({subject}, {patternsText ps})"

/-- the opposite of the condition, where it can fail -/
def Guard.opposite (subject : String) : Guard → Option String
  | .always => none
  | .among ps => some s!"!matches!({subject}, {patternsText ps})"
  | .outside ps => some s!"matches!({subject}, {patternsText ps})"

def dropMarks : List Char → List Char
  | 'r' :: '#' :: r => dropMarks r
  | r => r

/-- an identifier without the marks of a raw one -/
def unmarked (name : String) : String := String.ofList (dropMarks name.toList)

namespace UnionCode

def slotType (u : UnionCode) : String := s!"__{u.name}_Arm"

def subject (u : UnionCode) : String := s!"self.{ident u.tagName}"

def structLayout (u : UnionCode) : Layout :=
  line "#[derive(Debug, Clone, Default, PartialEq)]" ::
    block s!"pub struct {ident u.name}" (
      line s!"pub {ident u.tagName}: {typeRef u.tagType}," ::
        if u.hasSlot then [line s!"_u: Option<{u.slotType}>,"] else [])

def slotLayout (u : UnionCode) : Layout :=
  line "#[derive(Debug, Clone, PartialEq)]" ::
    block s!"enum {u.slotType}" (u.payloads.map fun m => line s!"{ident m.name}({m.type.text}),")

/-- the accessor of an arm with a payload -/
def accessorLayout (u : UnionCode) (a : UnionArm) (m : Member) : Layout :=
  let variant := s!"{u.slotType}::{ident m.name}"
  let stop := s!"xdr_panic(\"{refusalText (unmarked (ident m.name))}\")"
  block s!"pub fn {ident m.name}(&mut self) -> &mut {m.type.text}" (
    (match (u.guard a).opposite u.subject with
      | some test => block s!"if {test}" [line s!"{stop};"]
      | none => []) ++
    block s!"if !matches!(self._u, Some({variant}(_)))" [line s!"self._u = Some({variant}(Default::default()));"] ++
    block "match &mut self._u" [line s!"Some({variant}(v)) => v,", line s!"_ => {stop},"])

def accessorsLayout (u : UnionCode) : Layout :=
  block s!"impl {ident u.name}" (
    spaced (u.arms.filterMap fun a => a.payload.map fun m => u.accessorLayout a m))

def callText : Option String → String
  | some accessor => s!"Some(self.{ident accessor}() as &mut dyn XdrAny)"
  | none => "None"

def reflectionLayout (u : UnionCode) : Layout :=
  block s!"impl XdrUnion for {ident u.name}" (spaced [
    block "fn xdr_union_tag(&mut self) -> &mut dyn XdrNum32" [line s!"&mut {u.subject}"],
    block "fn xdr_union_valid(&self) -> bool" [line (u.validity.text u.subject)],
    block "fn xdr_union_body(&mut self) -> Option<&mut dyn XdrAny>" (
      block s!"match {u.subject}" (
        u.cases.map (fun c => line s!"{patternsText c.1} => {callText c.2},") ++
          [line s!"_ => {callText u.fallback},"]))])

def layout (u : UnionCode) : Layout :=
  spaced (u.structLayout :: (if u.hasSlot then [u.slotLayout, u.accessorsLayout] else []) ++ [u.reflectionLayout])

end UnionCode

end Xdr.Code
