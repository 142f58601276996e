/-
Quoted texts: the characters between double quotes, with escapes for quotes, backslashes and what cannot be seen.
-/
import Xdr.Text.Printable

namespace Xdr.Text

/-- the digits of a number in base sixteen, without leading zeros -/
def hexDigits (n : Nat) : List Char := Nat.toDigits 16 n

/-- the written form of one character -/
def escape (c : Char) : List Char :=
  match c with
  | '\x00' => ['\\', '0']
  | '\t' => ['\\', 't']
  | '\n' => ['\\', 'n']
  | '\r' => ['\\', 'r']
  | '"' => ['\\', '"']
  | '\\' => ['\\', '\\']
  | c => if isPrintable c then [c] else '\\' :: 'u' :: '{' :: hexDigits c.toNat ++ ['}']

def quoted (s : String) : String := String.ofList ('"' :: s.toList.flatMap escape ++ ['"'])

end Xdr.Text
