/-
Fragments of generated text: one for each definition, and one for each bounded container.

A fragment is a value that keeps the names of the schema; `text` writes it. `name` is the name it was generated under.
-/
import Xdr.Code.Layout
import Xdr.Code.Union
import Xdr.Schema.Definition

namespace Xdr.Code

open Layout

structure EnumMember where
  name : String
  value : TagValue
deriving DecidableEq, Repr

inductive Fragment where
  | const (name : String) (type : ConstType) (value : ConstValue)
  | alias (name : String) (type : TypeExpr)
  | struct (name : String) (fields : List Member)
  | enum (name : String) (members : List EnumMember)
  | union (u : UnionCode)
  /-- a container with its bound; one of strings or opaque data is set as bytes -/
  | wrapper (name : String) (content : TypeExpr) (bound : String) (ofBytes : Bool)
deriving DecidableEq, Repr

namespace Fragment

def name : Fragment → String
  | .const name .. => name
  | .alias name _ => name
  | .struct name _ => name
  | .enum name _ => name
  | .union u => u.name
  | .wrapper name .. => name

/-- declares a type, and not a constant -/
def isType : Fragment → Bool
  | .const .. => false
  | _ => true

end Fragment

/-! ## Layouts -/

def structLayout (name : String) (fields : List Member) : Layout :=
  line "#[derive(Debug, Clone, Default, PartialEq)]" ::
    block s!"pub struct {ident name}" (fields.map fun f => line s!"pub {ident f.name}: {f.type.text},")

/-- the table of the names of an enum's values -/
def namesTable (name : String) : String := s!"_{name}_names"

def enumLayout (name : String) (members : List EnumMember) : Layout :=
  let type := ident name
  spaced [
    lines ["#[derive(Debug, Clone, Copy, Default, PartialEq, Eq, Hash)]", s!"pub struct {type}(pub i32);"],
    members.map fun m => line s!"pub const {ident m.name}: {type} = {type}({m.value.text});",
    enclose s!"const {namesTable name}: &[(i32, &str)] = &[" "];" (
      members.map fun m => line s!"({ident m.name}.0, \"{m.name}\"),"),
    block s!"impl XdrEnum for {type}" (spaced [
      block "fn enum_names(&self) -> &'static [(i32, &'static str)]" [line (namesTable name)],
      block "fn enum_val(&mut self) -> &mut i32" [line "&mut self.0"]]),
    block s!"impl XdrNum32 for {type}" (spaced [
      block "fn get_u32(&self) -> u32" [line "self.0 as u32"],
      block "fn set_u32(&mut self, value: u32) -> XdrResult<()>" (lines ["self.0 = value as i32;", "Ok(())"]),
      block "fn xdr_pointer(&mut self) -> &mut dyn ::std::any::Any" [line "&mut self.0"],
      block "fn xdr_value(&self) -> XdrValue" [line "XdrValue::Int(self.0)"]]),
    block s!"impl ::std::fmt::Display for {type}" (
      block "fn fmt(&self, f: &mut ::std::fmt::Formatter<'_>) -> ::std::fmt::Result" (
        block "match self.enum_name()" (lines [
          "Some(name) => f.write_str(name),",
          s!"None => f.write_str(\"unknown_{name}\"),"])))]

def wrapperLayout (name : String) (content : TypeExpr) (bound : String) (ofBytes : Bool) : Layout :=
  let inner := content.text
  spaced ([
    lines ["#[derive(Debug, Clone, Default, PartialEq)]", s!"pub struct {name}(pub {inner});"],
    block s!"impl ::std::ops::Deref for {name}" (spaced [
      [line s!"type Target = {inner};"],
      block s!"fn deref(&self) -> &{inner}" [line "&self.0"]]),
    block s!"impl ::std::ops::DerefMut for {name}" (
      block s!"fn deref_mut(&mut self) -> &mut {inner}" [line "&mut self.0"]),
    block s!"impl XdrBound for {name}" (block "fn xdr_bound(&self) -> u32" [line bound])] ++
    if ofBytes then [
      block s!"impl XdrBytes for {name}" (
        block "fn get_byte_slice(&self) -> &[u8]" [line "self.0.get_byte_slice()"]),
      block s!"impl XdrVariableBytes for {name}" (
        block "fn set_byte_slice(&mut self, bytes: &[u8]) -> XdrResult<()>" (lines [
          "let bound = self.xdr_bound();",
          "set_bounded_bytes(&mut self.0, bytes, bound)"]))]
    else [])

namespace Fragment

def layout : Fragment → Layout
  | .const name type value => [line s!"pub const {ident name}: {type.text} = {value.text};"]
  | .alias name type => [line s!"pub type {ident name} = {type.text};"]
  | .struct name fields => structLayout name fields
  | .enum name members => enumLayout name members
  | .union u => u.layout
  | .wrapper name content bound ofBytes => wrapperLayout name content bound ofBytes

def text (f : Fragment) : String := Layout.text f.layout

end Fragment

end Xdr.Code
