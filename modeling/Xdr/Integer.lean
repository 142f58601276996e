/-
Integer literals of the schema language: decimal, hexadecimal behind `0x`, or octal behind a `0`, with a minus sign
in front or none. A literal whose magnitude does not fit 127 bits is no integer.
-/
namespace Xdr

namespace Integer

/-- the value of a digit, letters from ten on in either case -/
def digit? (radix : Nat) (c : Char) : Option Nat :=
  let v :=
    if '0' ≤ c ∧ c ≤ '9' then some (c.toNat - '0'.toNat)
    else if 'a' ≤ c ∧ c ≤ 'z' then some (c.toNat - 'a'.toNat + 10)
    else if 'A' ≤ c ∧ c ≤ 'Z' then some (c.toNat - 'A'.toNat + 10)
    else none
  v.filter (· < radix)

/-- reads digits behind those that make up `acc` -/
def digits? (radix acc : Nat) : List Char → Option Nat
  | [] => some acc
  | c :: cs => (digit? radix c).bind fun d => digits? radix (acc * radix + d) cs

/-- one digit at least -/
def natural? (radix : Nat) : List Char → Option Nat
  | [] => none
  | cs => digits? radix 0 cs

/-- the largest magnitude that is read -/
def maxMagnitude : Nat := 0x7FFFFFFFFFFFFFFFFFFFFFFFFFFFFFFF

def magnitude? (cs : List Char) : Option Nat :=
  let v := match cs with
    | '0' :: 'x' :: r => natural? 16 r
    | '0' :: 'X' :: r => natural? 16 r
    | '0' :: d :: r => natural? 8 (d :: r)
    | r => natural? 10 r
  v.filter (· ≤ maxMagnitude)

def ofChars? : List Char → Option Int
  | '-' :: r => (magnitude? r).map fun n => -(n : Int)
  | r => (magnitude? r).map fun n => (n : Int)

/-- the value of an integer literal -/
def read? (text : String) : Option Int := ofChars? text.toList

end Integer

/-- the integer types of constants, smallest first -/
inductive IntType where
  | i32 | u32 | i64 | u64
deriving DecidableEq, Repr

namespace IntType

def text : IntType → String
  | i32 => "i32"
  | u32 => "u32"
  | i64 => "i64"
  | u64 => "u64"

def least : IntType → Int
  | i32 => -0x80000000
  | i64 => -0x8000000000000000
  | u32 | u64 => 0

def greatest : IntType → Int
  | i32 => 0x7FFFFFFF
  | u32 => 0xFFFFFFFF
  | i64 => 0x7FFFFFFFFFFFFFFF
  | u64 => 0xFFFFFFFFFFFFFFFF

def holds (t : IntType) (v : Int) : Bool := t.least ≤ v && v ≤ t.greatest

/-- the first type that holds the value; what none of the others holds gets the last -/
def ofValue (v : Int) : IntType :=
  if i32.holds v then i32 else if u32.holds v then u32 else if i64.holds v then i64 else u64

end IntType

end Xdr
