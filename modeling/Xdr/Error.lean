/-
What can go wrong on the way from schema files to generated text, as causes.

Each layer wraps the one below it: a `Clash` between declarations is one way a source can be faulty (`SourceError`); a
faulty source or an unreadable file is one way an input can fail (`InputError`); failed inputs are one way generation
can fail (`GenerateError`). The wording of each layer is in its `message`, and nowhere else.
-/
import Xdr.Token

namespace Xdr

/-- declarations that do not go together -/
inductive Clash where
  /-- a name that is defined already -/
  | name (name : String)
  /-- two members of one struct or union -/
  | member (parent member : String)
  /-- two equal labels in one union -/
  | label (union label : String)
  /-- a second default arm -/
  | defaults (union : String)
  /-- two equal tags in one enum -/
  | tag (enum tag : String)
deriving DecidableEq, Repr

def Clash.message : Clash → String
  | .name n => s!"duplicate definition: '{n}'"
  | .member p m => s!"duplicate field '{m}' in '{p}'"
  | .label u l => s!"duplicate case label '{l}' in union '{u}'"
  | .defaults u => s!"union '{u}' has more than one default arm"
  | .tag e t => s!"validation error: Duplicate enum tag '{t}' in enum '{e}'"

/-- what the grammar allows at a place -/
inductive Expected where
  | definition
  | type
  | value
  | arm
  | brackets
  | name (role : String)
  | keyword (word : String)
  | punct (p : Punct)
  | nonVoidTypedef
deriving DecidableEq, Repr

def Expected.text : Expected → String
  | .definition => "definition"
  | .type => "type"
  | .value => "constant or identifier"
  | .arm => "'case' or 'default'"
  | .brackets => "'[' or '<'"
  | .name role => role
  | .keyword w => (Lexeme.word w).describe
  | .punct p => (Lexeme.punct p).describe
  | .nonVoidTypedef => "non-void typedef"

/-- constructs that are part of the language but not generated for -/
inductive Feature where
  | quadruple
  | discriminant
  | inlineOperand
deriving DecidableEq, Repr

def Feature.text : Feature → String
  | .quadruple => "type 'quadruple'"
  | .discriminant => "union discriminant"
  | .inlineOperand => "inline type in procedure"

/-- why a source text is refused -/
inductive SourceError where
  | invalidCharacter (pos : Position) (c : Char)
  | unterminatedComment (line : Nat)
  | unexpected (pos : Position) (expected : Expected) (found : Lexeme)
  | truncated (expected : Expected)
  | unsupported (pos : Position) (feature : Feature)
  | clash (c : Clash)
deriving DecidableEq, Repr

def Position.text (p : Position) : String := s!"{p.line}:{p.column}"

def SourceError.message : SourceError → String
  | .invalidCharacter p c => s!"{p.text}: invalid character '{c}'"
  | .unterminatedComment l => s!"{l}: unterminated comment"
  | .unexpected p e f => s!"{p.text}: expected {e.text}, found {f.describe}"
  | .truncated e => s!"unexpected {endOfInput}, expected {e.text}"
  | .unsupported p f => s!"{p.text}: unsupported {f.text}"
  | .clash c => c.message

/-- why a file could not be read or written -/
inductive FileError where
  | notFound
  | notDirectory
  | isDirectory
  | notText
  | nameTooLong
  | nulInPath
  /-- any other refusal of the system, in its own words -/
  | other (text : String)
deriving DecidableEq, Repr

def FileError.message : FileError → String
  | .notFound => "No such file or directory (os error 2)"
  | .notDirectory => "Not a directory (os error 20)"
  | .isDirectory => "Is a directory (os error 21)"
  | .notText => "stream did not contain valid UTF-8"
  | .nameTooLong => "File name too long (os error 36)"
  | .nulInPath => "file name contained an unexpected NUL byte"
  | .other t => t

/-- why an input failed; the fault of a source carries the file it was found in, once that is known -/
inductive InputError where
  | unreadable (path : String) (cause : FileError)
  | faulty (path : Option String) (cause : SourceError)
deriving DecidableEq, Repr

def InputError.message : InputError → String
  | .unreadable p c => s!"{p}: {c.message}"
  | .faulty (some p) c => s!"{p}: {c.message}"
  | .faulty none c => c.message

/-- names the file of an error that names none yet -/
def InputError.inFile (path : String) : InputError → InputError
  | .faulty none c => .faulty (some path) c
  | e => e

/-- an error is attributed to one file, and stays with it -/
@[simp] theorem InputError.inFile_inFile (p q : String) (e : InputError) :
    (e.inFile p).inFile q = e.inFile p := by
  cases e with
  | unreadable => rfl
  | faulty f c => cases f <;> rfl

/-- why no text was generated -/
inductive GenerateError where
  | source (cause : SourceError)
  | file (cause : FileError)
  | inputs (failed : Nat)
deriving DecidableEq, Repr

def GenerateError.message : GenerateError → String
  | .source c => s!"parse error: {c.message}"
  | .file c => s!"IO error: {c.message}"
  | .inputs n => s!"{n} input(s) failed, no code generated"

end Xdr
