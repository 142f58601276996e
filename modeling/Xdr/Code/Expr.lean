/-
Types, lengths, patterns and constant values as generated text writes them.

Each is a value first and a text second. They keep the names of the schema; a name is made an identifier where the text
is written.
-/
import Xdr.Code.Ident
import Xdr.Integer
import Xdr.Schema.Primitive

namespace Xdr.Code

/-! ## Literals -/

/-- the digits of an integer literal, with Rust's marks for hexadecimal and octal -/
def respell : List Char → List Char
  | '0' :: 'x' :: r => '0' :: 'x' :: r
  | '0' :: 'X' :: r => '0' :: 'x' :: r
  | '0' :: d :: r => '0' :: 'o' :: d :: r
  | r => r

/-- an integer literal of the schema language, respelled for Rust -/
def literal (text : String) : String :=
  match text.toList with
  | '-' :: r => String.ofList ('-' :: respell r)
  | r => String.ofList (respell r)

/-! ## Types -/

/-- the Rust spelling of a type name -/
def typeRef (name : String) : String :=
  match Primitive.ofIdlName? name with
  | some p => p.storage
  | none => ident name

/-- the length of a fixed array -/
inductive Length where
  | count (n : Int)
  /-- the value of a constant -/
  | constant (name : String)
deriving DecidableEq, Repr

def Length.text : Length → String
  | .count n => toString n
  | .constant name => s!"\x7b {ident name} as usize \x7d"

/-- the type of a declaration -/
inductive TypeExpr where
  | named (name : String)
  | optional (elem : String)
  | array (elem : String) (length : Length)
  | vec (elem : String)
  /-- a bounded container, under its own name -/
  | wrapper (name : String)
deriving DecidableEq, Repr

def TypeExpr.text : TypeExpr → String
  | .named name => typeRef name
  | .optional elem => s!"Option<Box<{typeRef elem}>>"
  | .array elem length => s!"XdrArray<{typeRef elem}, {length.text}>"
  | .vec elem => s!"Vec<{typeRef elem}>"
  | .wrapper name => name

/-! ## Patterns of labels -/

/-- what a label matches -/
inductive Pattern where
  /-- a value of an enum -/
  | tagged (enum : String) (value : Int)
  /-- an integer literal of the schema language -/
  | literal (text : String)
  | name (id : String)
deriving DecidableEq, Repr

def Pattern.text : Pattern → String
  | .tagged enum value => s!"{ident enum}({value})"
  | .literal text => Code.literal text
  | .name id => ident id

/-- alternatives -/
def patternsText (ps : List Pattern) : String := " | ".intercalate (ps.map Pattern.text)

/-! ## Constants -/

inductive ConstType where
  | integer (t : IntType)
  | enum (name : String)
deriving DecidableEq, Repr

def ConstType.text : ConstType → String
  | .integer t => t.text
  | .enum name => ident name

inductive ConstValue where
  /-- an integer literal of the schema language -/
  | literal (text : String)
  | name (id : String)
deriving DecidableEq, Repr

def ConstValue.text : ConstValue → String
  | .literal text => Code.literal text
  | .name id => ident id

/-- the number behind an enum tag -/
inductive TagValue where
  | number (value : Int)
  /-- the number behind another tag -/
  | tag (name : String)
  /-- a constant, cast -/
  | constant (name : String)
deriving DecidableEq, Repr

def TagValue.text : TagValue → String
  | .number value => toString value
  | .tag name => s!"{ident name}.0"
  | .constant name => s!"{ident name} as i32"

end Xdr.Code
