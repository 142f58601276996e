/-
Names in generated Rust text.

A name that Rust takes as an identifier is written as it is; a keyword or any other text becomes a raw identifier,
and the four words that cannot be raw get an underscore behind them.
-/
import Xdr.Text.Blank
import Xdr.Text.Letter

namespace Xdr.Code

open Text

/-- words that are no identifiers unless they are raw -/
def keywords : List String :=
  ["_", "abstract", "as", "async", "await", "become", "box", "break", "const", "continue", "crate", "do", "dyn",
    "else", "enum", "extern", "false", "final", "fn", "for", "if", "impl", "in", "let", "loop", "macro", "match",
    "mod", "move", "mut", "override", "priv", "pub", "ref", "return", "Self", "self", "static", "struct", "super",
    "trait", "true", "try", "type", "typeof", "unsafe", "unsized", "use", "virtual", "where", "while", "yield"]

/-- words that are no identifiers even when raw -/
def neverRaw : List String := ["_", "super", "self", "Self", "crate"]

/-- where the space around an identifier is: outside comments, in a line comment, or in nested block comments -/
inductive Space where
  | outside
  | line
  | block (depth : Nat)

/-- blanks, and the marks of writing direction, which count as blanks here -/
def isSpace (c : Char) : Bool := isBlank c || c = '\u200e' || c = '\u200f'

/-- documentation comments stand for text of their own and are no space -/
def isLineComment : List Char → Bool
  | '/' :: '/' :: '/' :: '/' :: _ => true
  | '/' :: '/' :: '/' :: _ => false
  | '/' :: '/' :: '!' :: _ => false
  | '/' :: '/' :: _ => true
  | _ => false

def isBlockComment : List Char → Bool
  | '/' :: '*' :: '*' :: '/' :: _ => true
  | '/' :: '*' :: '*' :: '*' :: _ => true
  | '/' :: '*' :: '*' :: _ => false
  | '/' :: '*' :: '!' :: _ => false
  | '/' :: '*' :: _ => true
  | _ => false

/-- what follows the space at the start of a text; `none` if a block comment never ends -/
def skipSpace : Space → List Char → Option (List Char)
  | .outside, [] => some []
  | .line, [] => some []
  | .block _, [] => none
  | .line, c :: r => skipSpace (if c = '\n' then .outside else .line) r
  | .block n, '/' :: '*' :: r => skipSpace (.block (n + 1)) r
  | .block n, '*' :: '/' :: r => skipSpace (if n ≤ 1 then .outside else .block (n - 1)) r
  | .block n, _ :: r => skipSpace (.block n) r
  | .outside, c :: r =>
    if isSpace c then skipSpace .outside r
    else if isLineComment (c :: r) then skipSpace .line r
    else if isBlockComment (c :: r) then
      match r with
      | _ :: r' => skipSpace (.block 1) r'
      | [] => some [c]
    else some (c :: r)

/-- a word at the start of a text, and what follows it -/
def word? : List Char → Option (String × List Char)
  | [] => none
  | c :: r =>
    if isLetter c || c = '_' then some (String.ofList (c :: r.takeWhile isLetterTail), r.dropWhile isLetterTail)
    else none

/-- an identifier at the start of a text, and what follows it -/
def identifier? : List Char → Option (String × List Char)
  | 'r' :: '#' :: r => (word? r).filter fun w => !neverRaw.contains w.1
  | r => (word? r).filter fun w => !keywords.contains w.1

/-- the text is one identifier, with space around it or none -/
def isIdentifier (text : String) : Bool :=
  let cs := match text.toList with
    | '\ufeff' :: r => r
    | r => r
  match (skipSpace .outside cs).bind identifier? with
  | some (_, rest) => skipSpace .outside rest == some []
  | none => false

/-- a name as it stands in generated text -/
def ident (name : String) : String :=
  if ["self", "Self", "super", "crate"].contains name then name ++ "_"
  else if name = "gen" then "r#" ++ name
  else if isIdentifier name then name
  else "r#" ++ name

end Xdr.Code
