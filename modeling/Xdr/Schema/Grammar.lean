/-
The grammar, one token at a time.

`State` is what has been read: the definitions completed so far, the contexts of the declarations that are open
(`Frame`, innermost first), and what the next token may be (`Focus`). `step` takes one token; every choice is made on
that token alone, so what a first part of a source does to the state is settled before the rest is seen. `parse` runs
all tokens from `State.start` and asks `finish` whether the text may end there.

A focus either waits for a token or is passed at once on arrival: `enter` resolves the second kind, `release` gives up
an optional continuation that the next token does not take.
-/
import Xdr.Error
import Xdr.Schema.Definition

namespace Xdr.Grammar

/-- the type of a declaration: named, or defined on the spot -/
inductive TypeSpec where
  | named (name : String)
  | body (d : Definition)

def TypeSpec.decl (t : TypeSpec) (id : String) (q : Qualifier) : Decl :=
  match t with
  | .named n => { id, typeName := n, qualifier := q }
  | .body d => { id, typeName := "", qualifier := q, body := some d }

/-- a union whose arms are being read -/
structure OpenUnion where
  id : String
  tagId : String
  tagType : String
  arms : List Arm := []
  hasDefault : Bool := false

def OpenUnion.close (u : OpenUnion) : Definition := .union u.id u.tagId u.tagType u.arms u.hasDefault

def OpenUnion.addArm (u : OpenUnion) (cases : List String) (isDefault : Bool) (d : Decl) : OpenUnion :=
  { u with arms := u.arms ++ [⟨cases, isDefault, d⟩], hasDefault := u.hasDefault || isDefault }

/-- a program whose versions are being read -/
structure OpenProgram where
  id : String
  versions : List Version := []

/-- a version whose procedures are being read -/
structure OpenVersion where
  program : OpenProgram
  id : String
  procedures : List Procedure := []

/-- which type of a procedure is being read -/
inductive Slot where
  | result (v : OpenVersion)
  | argument (v : OpenVersion) (result id : String) (args : List String)

/-- what a declaration, or the type of a procedure, is being read for -/
inductive Frame where
  | alias (keyword : Token)
  | field (id : String) (fields : List Decl)
  | discriminant (id : String) (start : Position)
  | arm (u : OpenUnion) (cases : List String) (isDefault : Bool)
  | operand (start : Position) (slot : Slot)

/-- what may come next -/
inductive Focus where
  /-- exactly this -/
  | punct (p : Punct) (next : Focus)
  | keyword (word : String) (next : Focus)
  | name (role : String) (next : String → Focus)
  | value (next : String → Focus)
  /-- a definition's keyword, or the end of the text -/
  | definition
  /-- a comma and another tag, or the end of the enum -/
  | tagNext (id : String) (tags : List EnumTag)
  /-- an arm, or the end of the union after at least one -/
  | armNext (u : OpenUnion)
  | declaration
  | discriminant (id : String)
  /-- after the keyword of that type: a body, or a name -/
  | enumType
  | structType
  | unionType
  /-- the name of what has that type, or a star before it -/
  | declarator (t : TypeSpec)
  /-- the brackets that opaque data must have -/
  | opaqueSuffix (id : String)
  /-- after `<`: a length, or none -/
  | limit (d : Decl)
  | operand (slot : Slot)
  /-- a comma and another argument, or the end of the list -/
  | argumentNext (v : OpenVersion) (result id : String) (args : List String)
  /-- optional continuations: `hyper` or `int` after `unsigned` -/
  | unsigned
  /-- brackets after a name -/
  | suffix (d : Decl)
  /-- the end of the struct, or another field -/
  | fieldNext (id : String) (fields : List Decl)
  /-- another label, or the arm's declaration -/
  | caseNext (u : OpenUnion) (cases : List String)
  /-- the end of the version, or another procedure -/
  | procedureNext (v : OpenVersion)
  /-- the end of the program, or another version -/
  | versionNext (p : OpenProgram)
  /-- passed on arrival: a type was read -/
  | typed (t : TypeSpec)
  /-- a declaration was read -/
  | declared (d : Decl)
  /-- the body of a definition was read -/
  | built (d : Definition)
  /-- a definition was read -/
  | defined (d : Definition)
  /-- a field begins -/
  | field (id : String) (fields : List Decl)
  /-- the declaration of an arm begins -/
  | arm (u : OpenUnion) (cases : List String) (isDefault : Bool)

structure State where
  done : Array Definition := #[]
  frames : List Frame := []
  focus : Focus := .definition

namespace State

def start : State := {}

/-! ## Arriving at a focus -/

/-- goes on with a procedure after one of its types -/
def slotFocus (name : String) : Slot → Focus
  | .result v => .name "procedure name" fun id => .punct .lparen (.operand (.argument v name id []))
  | .argument v result id args => .argumentNext v result id (args ++ [name])

def typed (st : State) (t : TypeSpec) : Except SourceError State :=
  match st.frames, t with
  | .operand _ slot :: rest, .named n => .ok { st with frames := rest, focus := slotFocus n slot }
  | .operand start _ :: _, .body _ => .error (.unsupported start .inlineOperand)
  | _, t => .ok { st with focus := .declarator t }

/-- a discriminant is one plain value of a named type -/
def isDiscriminant (d : Decl) : Bool := !d.isVoid && !d.isInline && d.qualifier == .scalar

def declared (st : State) (d : Decl) : Except SourceError State :=
  match st.frames with
  | [] => .ok st
  | .alias keyword :: rest =>
    if d.isVoid then .error (.unexpected keyword.pos .nonVoidTypedef keyword.lexeme)
    else .ok { st with frames := rest, focus := .punct .semicolon (.defined (.typedef d)) }
  | .field id fields :: rest =>
    let fields := if d.isVoid then fields else fields ++ [d]
    .ok { st with frames := rest, focus := .punct .semicolon (.fieldNext id fields) }
  | .discriminant id start :: rest =>
    if isDiscriminant d then
      .ok { st with
        frames := rest
        focus := .punct .rparen (.punct .lbrace (.armNext { id, tagId := d.id, tagType := d.typeName })) }
    else .error (.unsupported start .discriminant)
  | .arm u cases isDefault :: rest =>
    .ok { st with frames := rest, focus := .punct .semicolon (.armNext (u.addArm cases isDefault d)) }
  | .operand start _ :: _ => .error (.unsupported start .inlineOperand)

/-- a body that no declaration encloses is a definition of its own -/
def built (st : State) (d : Definition) : Except SourceError State :=
  if st.frames.isEmpty then .ok { st with focus := .punct .semicolon (.defined d) } else st.typed (.body d)

def enter (st : State) : Focus → Except SourceError State
  | .typed t => st.typed t
  | .declared d => st.declared d
  | .built d => st.built d
  | .defined d => .ok { st with done := st.done.push d, focus := .definition }
  | .field id fields => .ok { st with frames := .field id fields :: st.frames, focus := .declaration }
  | .arm u cases isDefault => .ok { st with frames := .arm u cases isDefault :: st.frames, focus := .declaration }
  | f => .ok { st with focus := f }

/-! ## Taking a token -/

def versionFocus (p : OpenProgram) : Focus :=
  .keyword "version" (.name "version name" fun id => .punct .lbrace (.operand (.result { program := p, id })))

def tagFocus (id : String) (tags : List EnumTag) : Focus :=
  .name "enum tag" fun tag => .punct .equals (.value fun value => .tagNext id (tags ++ [⟨tag, value⟩]))

/-- whether an optional continuation goes on with this token; every other focus keeps it -/
def keeps : Focus → Lexeme → Bool
  | .unsigned, l => l == .word "hyper" || l == .word "int"
  | .suffix _, l => l == .punct .lbracket || l == .punct .langle
  | .fieldNext .., l => l == .punct .rbrace
  | .caseNext .., l => l == .word "case"
  | .procedureNext _, l => l == .punct .rbrace
  | .versionNext _, l => l == .punct .rbrace
  | _, _ => true

/-- gives up an optional continuation -/
def release (st : State) : Except SourceError State :=
  match st.focus with
  | .unsigned => st.enter (.typed (.named Primitive.unsignedInt.idlName))
  | .suffix d => st.enter (.declared d)
  | .fieldNext id fields => st.enter (.field id fields)
  | .caseNext u cases => st.enter (.arm u cases false)
  | .procedureNext v => st.enter (.operand (.result v))
  | .versionNext p => st.enter (versionFocus p)
  | _ => .ok st

/-- what the grammar allows at a focus, as messages name it -/
def expected : Focus → Expected
  | .punct p _ => .punct p
  | .keyword w _ => .keyword w
  | .name role _ => .name role
  | .value _ | .limit _ => .value
  | .definition => .definition
  | .tagNext .. => .punct .rbrace
  | .armNext _ => .arm
  | .enumType => .name "enum name"
  | .structType => .name "struct name"
  | .unionType => .name "union name"
  | .declarator _ => .name "field name"
  | .opaqueSuffix _ => .brackets
  | .argumentNext .. => .punct .rparen
  | _ => .type

/-- a name: any word that is not reserved -/
def asName : Lexeme → Option String
  | .word w => if isReserved w then none else some w
  | _ => none

/-- a value: a number or a name, as written -/
def asValue : Lexeme → Option String
  | .number n => some n
  | l => asName l

/-- the keyword of a definition -/
def definitionFocus (tok : Token) : Option (List Frame × Focus) :=
  match tok.lexeme with
  | .word "const" =>
    some ([], .name "constant name" fun id => .punct .equals (.value fun value => .built (.const id value)))
  | .word "typedef" => some ([.alias tok], .declaration)
  | .word "enum" => some ([], .name "enum name" fun id => .punct .lbrace (tagFocus id []))
  | .word "struct" => some ([], .name "struct name" fun id => .punct .lbrace (.field id []))
  | .word "union" =>
    some ([], .name "union name" fun id => .keyword "switch" (.punct .lparen (.discriminant id)))
  | .word "program" => some ([], .name "program name" fun id => .punct .lbrace (versionFocus { id }))
  | _ => none

/-- the first word of a type; `none` refuses the token as no type -/
def typeFocus (tok : Token) : Except SourceError (Option Focus) :=
  match tok.lexeme with
  | .word "unsigned" => .ok (some .unsigned)
  | .word "int" => .ok (some (.typed (.named "int")))
  | .word "hyper" => .ok (some (.typed (.named "hyper")))
  | .word "float" => .ok (some (.typed (.named "float")))
  | .word "double" => .ok (some (.typed (.named "double")))
  | .word "bool" => .ok (some (.typed (.named "bool")))
  | .word "quadruple" => .error (.unsupported tok.pos .quadruple)
  | .word "enum" => .ok (some .enumType)
  | .word "struct" => .ok (some .structType)
  | .word "union" => .ok (some .unionType)
  | l => .ok ((asName l).map fun n => .typed (.named n))

/-- the first word of a declaration -/
def declarationFocus (tok : Token) : Except SourceError (Option Focus) :=
  match tok.lexeme with
  | .word "void" => .ok (some (.declared .void))
  | .word "opaque" => .ok (some (.name "field name" fun id => .opaqueSuffix id))
  | .word "string" =>
    .ok (some (.name "field name" fun id => .punct .langle (.limit { id, typeName := Primitive.string.idlName })))
  | _ => typeFocus tok

/-- the first word of a procedure's type -/
def operandFocus (tok : Token) : Except SourceError (Option Focus) :=
  match tok.lexeme with
  | .word "void" => .ok (some (.typed (.named Primitive.void.idlName)))
  | _ => typeFocus tok

/-- where a token leads from a focus that it does not give up; `none` refuses the token. A context that begins with
the token is put on the frames first. -/
def follow (st : State) (tok : Token) : Except SourceError (Option (State × Focus)) :=
  let go (f : Focus) : Except SourceError (Option (State × Focus)) := .ok (some (st, f))
  let refuse : Except SourceError (Option (State × Focus)) := .ok none
  let l := tok.lexeme
  match st.focus with
  | .punct p next => if l = .punct p then go next else refuse
  | .keyword w next => if l = .word w then go next else refuse
  | .name _ next => .ok ((asName l).map fun n => (st, next n))
  | .value next => .ok ((asValue l).map fun v => (st, next v))
  | .definition => .ok ((definitionFocus tok).map fun r => ({ st with frames := r.1 }, r.2))
  | .tagNext id tags =>
    if l = .punct .comma then go (tagFocus id tags)
    else if l = .punct .rbrace then go (.built (.enum id tags))
    else refuse
  | .armNext u =>
    if l = .word "default" then go (.punct .colon (.arm u [] true))
    else if l = .word "case" then go (.value fun v => .punct .colon (.caseNext u [v]))
    else if l = .punct .rbrace ∧ u.arms.isEmpty = false then go (.built u.close)
    else refuse
  | .declaration => (declarationFocus tok).map fun r => r.map fun f => (st, f)
  | .discriminant id =>
    (declarationFocus tok).map fun r => r.map fun f => ({ st with frames := .discriminant id tok.pos :: st.frames }, f)
  | .operand slot =>
    (operandFocus tok).map fun r => r.map fun f => ({ st with frames := .operand tok.pos slot :: st.frames }, f)
  | .enumType =>
    if l = .punct .lbrace then go (tagFocus "" []) else .ok ((asName l).map fun n => (st, .typed (.named n)))
  | .structType =>
    if l = .punct .lbrace then go (.field "" []) else .ok ((asName l).map fun n => (st, .typed (.named n)))
  | .unionType =>
    if l = .word "switch" then go (.punct .lparen (.discriminant ""))
    else .ok ((asName l).map fun n => (st, .typed (.named n)))
  | .declarator t =>
    if l = .punct .star then go (.name "field name" fun id => .declared (t.decl id .optional))
    else .ok ((asName l).map fun id => (st, .suffix (t.decl id .scalar)))
  | .opaqueSuffix id =>
    let d : Decl := { id, typeName := Primitive.opaqueBytes.idlName }
    if l = .punct .lbracket then
      go (.value fun v => .punct .rbracket (.declared { d with qualifier := .array, bound := v }))
    else if l = .punct .langle then go (.limit { d with qualifier := .vec })
    else refuse
  | .limit d =>
    if l = .punct .rangle then go (.declared d)
    else .ok ((asValue l).map fun v => (st, .punct .rangle (.declared { d with bound := v })))
  | .argumentNext v result id args =>
    if l = .punct .comma then go (.operand (.argument v result id args))
    else if l = .punct .rparen then
      go (.punct .equals (.value fun number => .punct .semicolon
        (.procedureNext { v with procedures := v.procedures ++ [⟨id, number, result, args⟩] })))
    else refuse
  | .unsigned =>
    if l = .word "hyper" then go (.typed (.named Primitive.unsignedHyper.idlName))
    else if l = .word "int" then go (.typed (.named Primitive.unsignedInt.idlName))
    else refuse
  | .suffix d =>
    if l = .punct .lbracket then
      go (.value fun v => .punct .rbracket (.declared { d with qualifier := .array, bound := v }))
    else if l = .punct .langle then go (.limit { d with qualifier := .vec })
    else refuse
  | .fieldNext id fields => if l = .punct .rbrace then go (.built (.struct id fields)) else refuse
  | .caseNext u cases =>
    if l = .word "case" then go (.value fun v => .punct .colon (.caseNext u (cases ++ [v]))) else refuse
  | .procedureNext v =>
    if l = .punct .rbrace then
      go (.punct .equals (.value fun number => .punct .semicolon
        (.versionNext { v.program with versions := v.program.versions ++ [⟨v.id, number, v.procedures⟩] })))
    else refuse
  | .versionNext p =>
    if l = .punct .rbrace then
      go (.punct .equals (.value fun number => .built (.program ⟨p.id, number, p.versions⟩)))
    else refuse
  | .typed _ | .declared _ | .built _ | .defined _ | .field .. | .arm .. => refuse

/-- takes one token -/
def step (st : State) (tok : Token) : Except SourceError State := do
  let st ← if keeps st.focus tok.lexeme then pure st else st.release
  match ← st.follow tok with
  | some (st', f) => st'.enter f
  | none => .error (.unexpected tok.pos (expected st.focus) tok.lexeme)

def run (st : State) (toks : List Token) : Except SourceError State := toks.foldlM step st

/-- the definitions read, if the text may end here -/
def finish (st : State) : Except SourceError (List Definition) := do
  let st ← st.release
  match st.focus with
  | .definition => .ok st.done.toList
  | f => .error (.truncated (expected f))

end State

/-- the definitions that a list of tokens makes up -/
def parse (toks : List Token) : Except SourceError (List Definition) := do
  let st ← State.start.run toks
  st.finish

end Xdr.Grammar
