/-
Tokens of a schema source and the positions they stand at.

A keyword is an ordinary word here; the grammar tells keywords from names.
-/
namespace Xdr

/-- line and column, both counted from 1; a column is one character -/
structure Position where
  line : Nat
  column : Nat
deriving DecidableEq, Repr, Inhabited

inductive Punct where
  | lbrace | rbrace | lparen | rparen | lbracket | rbracket | langle | rangle
  | semicolon | comma | colon | equals | star
deriving DecidableEq, Repr

def Punct.char : Punct → Char
  | .lbrace => '{'
  | .rbrace => '}'
  | .lparen => '('
  | .rparen => ')'
  | .lbracket => '['
  | .rbracket => ']'
  | .langle => '<'
  | .rangle => '>'
  | .semicolon => ';'
  | .comma => ','
  | .colon => ':'
  | .equals => '='
  | .star => '*'

def Punct.all : List Punct :=
  [.lbrace, .rbrace, .lparen, .rparen, .lbracket, .rbracket, .langle, .rangle, .semicolon, .comma, .colon, .equals,
    .star]

def Punct.ofChar? (c : Char) : Option Punct := Punct.all.find? fun p => p.char = c

@[simp] theorem Punct.ofChar?_char (p : Punct) : Punct.ofChar? p.char = some p := by
  cases p <;> rfl

theorem Punct.char_of_ofChar? {c : Char} {p : Punct} (h : Punct.ofChar? c = some p) : p.char = c := by
  simpa using List.find?_some h

/-- what a token is, with the text of words and numbers kept as written -/
inductive Lexeme where
  | word (text : String)
  | number (text : String)
  | punct (p : Punct)
deriving DecidableEq, Repr

/-- the characters of the source that make up a lexeme -/
def Lexeme.chars : Lexeme → List Char
  | .word s => s.toList
  | .number s => s.toList
  | .punct p => [p.char]

/-- how messages name a lexeme -/
def Lexeme.describe : Lexeme → String
  | .word s => s!"'{s}'"
  | .number s => s!"number {s}"
  | .punct p => s!"'{p.char}'"

structure Token where
  lexeme : Lexeme
  pos : Position
deriving DecidableEq, Repr

/-- a scanned source: its tokens in order, and the position where the text ends -/
structure Scanned where
  tokens : List Token
  stop : Position
deriving DecidableEq, Repr

/-- how messages name the end of the text -/
def endOfInput : String := "end of input"

/-- words that are no names -/
def reservedWords : List String :=
  ["bool", "case", "const", "default", "double", "quadruple", "enum", "float", "hyper", "int", "opaque", "string",
    "struct", "switch", "typedef", "union", "unsigned", "void", "program", "version"]

def isReserved (word : String) : Bool := reservedWords.contains word

end Xdr
