/-
Definitions that the grammar can express, and their canonical text.

`Definition.grammatical` is the shape of a definition as a schema can write it, inline bodies included. `lexemes` and
`schemaText` write definitions that have this shape: every list in order, `string` always with its angle brackets,
`unsigned` always with its second word, an empty struct with a `void` field.
- `wellSpelled_lexemes`: the canonical lexemes of a grammatical definition are lexemes that a text can hold.
-/
import Xdr.Proofs.Token.Spelling
import Xdr.Schema.Definition

namespace Xdr

/-! ## Shape -/

/-- the built-in types that a declaration names like a type of the schema's own -/
def plainPrimitives : List Primitive :=
  [.int, .unsignedInt, .hyper, .unsignedHyper, .float, .double, .bool]

def isTypeName (s : String) : Bool := (plainPrimitives.map Primitive.idlName).contains s || isName s

/-- a type of a procedure -/
def isOperand (s : String) : Bool := s == Primitive.void.idlName || isTypeName s

/-- the bounds that go with a qualifier: a length for arrays, a length or none for vectors, none elsewhere -/
def Qualifier.takes : Qualifier → String → Bool
  | .scalar, bound | .optional, bound => bound == ""
  | .array, bound => isValue bound
  | .vec, bound => bound == "" || isValue bound

/-- a declaration of a named type: strings are scalars with the bound of a vector, opaque data has brackets -/
def isNamedUse (type : String) (q : Qualifier) (bound : String) : Bool :=
  if type = Primitive.string.idlName then q == .scalar && Qualifier.vec.takes bound
  else if type = Primitive.opaqueBytes.idlName then (q == .array || q == .vec) && q.takes bound
  else isTypeName type && q.takes bound

/-- the type of a discriminant -/
def isDiscriminantType (type : String) : Bool := type == Primitive.string.idlName || isTypeName type

theorem isNamedUse_discriminant {type : String} (h : isDiscriminantType type = true) :
    isNamedUse type .scalar "" = true := by
  unfold isNamedUse
  split_ifs with hs ho
  · rfl
  · rw [ho] at h
    exact absurd h (by decide)
  · simpa [isDiscriminantType, hs, Qualifier.takes] using h

theorem isDiscriminantType_of_isNamedUse {type bound : String} (h : isNamedUse type .scalar bound = true) :
    isDiscriminantType type = true := by
  unfold isNamedUse at h
  split_ifs at h with hs ho
  · rw [hs]
    rfl
  · exact absurd h (by simp)
  · simp only [Bool.and_eq_true] at h
    exact Bool.or_eq_true_iff.2 (.inr h.1)

def EnumTag.grammatical (t : EnumTag) : Bool := isName t.id && isValue t.value

def Procedure.grammatical (p : Procedure) : Bool :=
  isName p.id && isValue p.number && isOperand p.result && !p.args.isEmpty && p.args.all isOperand

def Version.grammatical (v : Version) : Bool :=
  isName v.id && isValue v.number && !v.procedures.isEmpty && v.procedures.all Procedure.grammatical

def Program.grammatical (p : Program) : Bool :=
  isName p.id && isValue p.number && !p.versions.isEmpty && p.versions.all Version.grammatical

/-- labels of an arm: none of a default arm, one at least of any other -/
def labelled (cases : List String) (isDefault : Bool) : Bool :=
  if isDefault then cases.isEmpty else !cases.isEmpty && cases.all isValue

namespace Decl

/-- `Decl.void` and nothing else -/
def isNothing (d : Decl) : Bool :=
  d.id == "" && d.typeName == Primitive.void.idlName && d.qualifier == .scalar && d.bound == "" && d.body.isNone

theorem eq_void_of_isNothing {d : Decl} (h : d.isNothing = true) : d = void := by
  obtain ⟨id, type, q, bound, body⟩ := d
  simp only [isNothing, Bool.and_eq_true, beq_iff_eq, Option.isNone_iff_eq_none] at h
  obtain ⟨⟨⟨⟨rfl, rfl⟩, rfl⟩, rfl⟩, rfl⟩ := h
  rfl

end Decl

/-- defines a type, and not a constant or a program -/
def Definition.isType : Definition → Bool
  | .typedef _ | .struct .. | .enum .. | .union .. => true
  | .const .. | .program _ => false

/-- a definition whose body can stand in a declaration -/
def Definition.isBody : Definition → Bool
  | .struct .. | .enum .. | .union .. => true
  | _ => false

mutual

/-- what stands behind the name of a definition -/
def Definition.grammaticalBody : Definition → Bool
  | .const _ value => isValue value
  | .typedef d => d.grammatical
  | .struct _ fields => grammaticalFields fields
  | .enum _ tags => !tags.isEmpty && tags.all EnumTag.grammatical
  | .union _ tagId tagType arms hasDefault =>
    isName tagId && isDiscriminantType tagType && !arms.isEmpty && (hasDefault == arms.any Arm.isDefault) &&
      grammaticalArms arms
  | .program p => p.grammatical

/-- a declaration that carries a value -/
def Decl.grammatical : Decl → Bool
  | ⟨id, type, q, bound, none⟩ => isName id && isNamedUse type q bound
  | ⟨id, type, q, bound, some b⟩ =>
    isName id && type == "" && q.takes bound && b.isBody && b.id == "" && b.grammaticalBody

def grammaticalFields : List Decl → Bool
  | [] => true
  | d :: ds => d.grammatical && grammaticalFields ds

def grammaticalArms : List Arm → Bool
  | [] => true
  | ⟨cases, isDefault, d⟩ :: as =>
    labelled cases isDefault && (d.isNothing || d.grammatical) && grammaticalArms as

end

/-- a definition that a schema can write at its top level -/
def Definition.grammatical (d : Definition) : Bool := isName d.id && d.grammaticalBody

theorem grammaticalFields_iff {fields : List Decl} :
    grammaticalFields fields = true ↔ ∀ d ∈ fields, d.grammatical = true := by
  induction fields with
  | nil => simp [grammaticalFields]
  | cons d ds ih => simp [grammaticalFields, ih]

/-- an arm of a union -/
def Arm.grammatical (a : Arm) : Bool := labelled a.cases a.isDefault && (a.decl.isNothing || a.decl.grammatical)

theorem grammaticalArms_iff {arms : List Arm} :
    grammaticalArms arms = true ↔ ∀ a ∈ arms, a.grammatical = true := by
  induction arms with
  | nil => simp [grammaticalArms]
  | cons a as ih =>
    obtain ⟨cases, isDefault, d⟩ := a
    rw [grammaticalArms, Bool.and_eq_true, ih, List.forall_mem_cons, Arm.grammatical]

theorem grammaticalFields_concat {fields : List Decl} {d : Decl} (hf : grammaticalFields fields = true)
    (hd : d.grammatical = true) : grammaticalFields (fields ++ [d]) = true := by
  rw [grammaticalFields_iff, List.forall_mem_append, List.forall_mem_singleton]
  exact ⟨grammaticalFields_iff.1 hf, hd⟩

theorem grammaticalArms_concat {arms : List Arm} {a : Arm} (hs : grammaticalArms arms = true)
    (ha : a.grammatical = true) : grammaticalArms (arms ++ [a]) = true := by
  rw [grammaticalArms_iff, List.forall_mem_append, List.forall_mem_singleton]
  exact ⟨grammaticalArms_iff.1 hs, ha⟩

theorem Decl.isName_of_grammatical {d : Decl} (h : d.grammatical = true) : isName d.id = true := by
  obtain ⟨id, type, q, bound, body⟩ := d
  cases body with
  | none =>
    simp only [grammatical, Bool.and_eq_true] at h
    exact h.1
  | some b =>
    simp only [grammatical, Bool.and_eq_true] at h
    exact h.1.1.1.1.1

theorem Definition.grammatical_typedef {d : Decl} (h : d.grammatical = true) :
    (Definition.typedef d).grammatical = true :=
  Bool.and_eq_true_iff.2 ⟨Decl.isName_of_grammatical h, h⟩

/-! ## Canonical lexemes -/

def valueLexeme (v : String) : Lexeme := if isNumber v then .number v else .word v

def typeLexemes (type : String) : List Lexeme :=
  if type = Primitive.unsignedInt.idlName then [.word "unsigned", .word "int"]
  else if type = Primitive.unsignedHyper.idlName then [.word "unsigned", .word "hyper"]
  else [.word type]

/-- the declared name with its qualifier -/
def declaratorLexemes (id : String) (bound : String) : Qualifier → List Lexeme
  | .scalar => [.word id]
  | .optional => [.punct .star, .word id]
  | .array => [.word id, .punct .lbracket, valueLexeme bound, .punct .rbracket]
  | .vec => .word id :: .punct .langle :: ((if bound = "" then [] else [valueLexeme bound]) ++ [.punct .rangle])

/-- the declaration of a named type; a string is written with the brackets of a vector -/
def namedLexemes (id type : String) (q : Qualifier) (bound : String) : List Lexeme :=
  if type = Primitive.void.idlName then [.word type]
  else typeLexemes type ++ declaratorLexemes id bound (if type = Primitive.string.idlName then .vec else q)

/-- parts with a comma between them -/
def commaSeparated : List (List Lexeme) → List Lexeme
  | [] => []
  | [p] => p
  | p :: q :: ps => p ++ .punct .comma :: commaSeparated (q :: ps)

def EnumTag.lexemes (t : EnumTag) : List Lexeme := [.word t.id, .punct .equals, valueLexeme t.value]

def labelLexemes (cases : List String) (isDefault : Bool) : List Lexeme :=
  if isDefault then [.word "default", .punct .colon]
  else cases.flatMap fun c => [.word "case", valueLexeme c, .punct .colon]

def Procedure.lexemes (p : Procedure) : List Lexeme :=
  typeLexemes p.result ++ .word p.id :: .punct .lparen :: (commaSeparated (p.args.map typeLexemes) ++
    [.punct .rparen, .punct .equals, valueLexeme p.number, .punct .semicolon])

def Version.lexemes (v : Version) : List Lexeme :=
  .word "version" :: .word v.id :: .punct .lbrace :: (v.procedures.flatMap Procedure.lexemes ++
    [.punct .rbrace, .punct .equals, valueLexeme v.number, .punct .semicolon])

def Program.lexemes (p : Program) : List Lexeme :=
  .punct .lbrace :: (p.versions.flatMap Version.lexemes ++ [.punct .rbrace, .punct .equals, valueLexeme p.number])

mutual

/-- what stands behind the keyword and the name of a definition -/
def Definition.bodyLexemes : Definition → List Lexeme
  | .const _ value => [.punct .equals, valueLexeme value]
  | .typedef d => d.lexemes
  | .struct _ fields =>
    .punct .lbrace :: ((if fields.isEmpty then [.word "void", .punct .semicolon] else fieldLexemes fields) ++
      [.punct .rbrace])
  | .enum _ tags => .punct .lbrace :: (commaSeparated (tags.map EnumTag.lexemes) ++ [.punct .rbrace])
  | .union _ tagId tagType arms _ =>
    .word "switch" :: .punct .lparen :: (namedLexemes tagId tagType .scalar "" ++
      .punct .rparen :: .punct .lbrace :: (armLexemes arms ++ [.punct .rbrace]))
  | .program p => p.lexemes

def Decl.lexemes : Decl → List Lexeme
  | ⟨id, type, q, bound, none⟩ => namedLexemes id type q bound
  | ⟨id, _, q, bound, some b⟩ => .word b.kind :: (b.bodyLexemes ++ declaratorLexemes id bound q)

def fieldLexemes : List Decl → List Lexeme
  | [] => []
  | d :: ds => d.lexemes ++ .punct .semicolon :: fieldLexemes ds

def armLexemes : List Arm → List Lexeme
  | [] => []
  | ⟨cases, isDefault, d⟩ :: as => labelLexemes cases isDefault ++ (d.lexemes ++ .punct .semicolon :: armLexemes as)

end

/-- the name of a definition behind its keyword; a typedef's stands in its declaration -/
def Definition.headLexemes : Definition → List Lexeme
  | .typedef _ => []
  | d => [.word d.id]

/-- a definition of the top level -/
def Definition.lexemes (d : Definition) : List Lexeme :=
  .word d.kind :: (d.headLexemes ++ (d.bodyLexemes ++ [.punct .semicolon]))

/-- the canonical text of a schema -/
def schemaText (ds : List Definition) : String := render (ds.flatMap Definition.lexemes)

@[simp] theorem Definition.rename_id (d : Definition) : d.rename d.id = d := by
  cases d with
  | typedef d => cases d; rfl
  | _ => rfl

theorem Definition.headLexemes_of_ne {d : Definition} (h : d.kind ≠ "typedef") : d.headLexemes = [.word d.id] := by
  cases d with
  | typedef d => exact absurd rfl h
  | _ => rfl

/-! ## What grammatical declarations cannot be -/

theorem isNamedUse_ne {type w bound : String} {q : Qualifier} (h : isNamedUse type q bound = true)
    (hw : isTypeName w = false) (hs : w ≠ Primitive.string.idlName) (ho : w ≠ Primitive.opaqueBytes.idlName) :
    type ≠ w := by
  rintro rfl
  rw [isNamedUse, if_neg hs, if_neg ho, hw] at h
  exact absurd h Bool.false_ne_true

theorem isNamedUse_ne_void {type bound : String} {q : Qualifier} (h : isNamedUse type q bound = true) :
    type ≠ Primitive.void.idlName :=
  isNamedUse_ne h (by decide) (by decide) (by decide)

theorem isNamedUse_ne_empty {type bound : String} {q : Qualifier} (h : isNamedUse type q bound = true) :
    type ≠ "" :=
  isNamedUse_ne h (by decide) (by decide) (by decide)

theorem isName_ne_empty {s : String} (h : isName s = true) : s ≠ "" := by
  rintro rfl
  exact absurd h (by decide)

/-- a declaration that carries a value is not taken for `void` -/
theorem Decl.isVoid_of_grammatical {d : Decl} (h : d.grammatical = true) : d.isVoid = false := by
  obtain ⟨id, type, q, bound, body⟩ := d
  cases body with
  | none =>
    simp only [grammatical, Bool.and_eq_true] at h
    simp [isVoid, isName_ne_empty h.1, isNamedUse_ne_void h.2]
  | some b =>
    simp only [grammatical, Bool.and_eq_true, beq_iff_eq] at h
    obtain ⟨⟨⟨⟨⟨hid, rfl⟩, -⟩, -⟩, -⟩, -⟩ := h
    simp [isVoid, isName_ne_empty hid, Primitive.idlName]

/-- the first lexeme of a type is a word of the type -/
theorem typeLexemes_head (type : String) :
    ∃ w ms, typeLexemes type = .word w :: ms ∧ (w = "unsigned" ∨ w = type) := by
  unfold typeLexemes
  split_ifs
  · exact ⟨_, _, rfl, .inl rfl⟩
  · exact ⟨_, _, rfl, .inl rfl⟩
  · exact ⟨_, _, rfl, .inr rfl⟩

theorem namedLexemes_head (id type bound : String) (q : Qualifier) :
    ∃ w ms, namedLexemes id type q bound = .word w :: ms ∧ (w = "unsigned" ∨ w = type) := by
  unfold namedLexemes
  by_cases hv : type = Primitive.void.idlName
  · exact ⟨type, [], if_pos hv, .inr rfl⟩
  · obtain ⟨w, ms, hms, hw⟩ := typeLexemes_head type
    exact ⟨w, _, by rw [if_neg hv, hms]; rfl, hw⟩

/-- a declaration never begins like a label -/
theorem Decl.lexemes_head {d : Decl} (h : (d.isNothing || d.grammatical) = true) :
    ∃ w ms, d.lexemes = .word w :: ms ∧ w ≠ "case" := by
  rcases Bool.or_eq_true_iff.1 h with h | h
  · rw [eq_void_of_isNothing h]
    exact ⟨_, _, rfl, by decide⟩
  · obtain ⟨id, type, q, bound, body⟩ := d
    cases body with
    | none =>
      simp only [grammatical, Bool.and_eq_true] at h
      obtain ⟨w, ms, hms, hw⟩ := namedLexemes_head id type bound q
      refine ⟨w, ms, by rw [lexemes, hms], ?_⟩
      rintro rfl
      exact isNamedUse_ne h.2 (by decide) (by decide) (by decide) (hw.resolve_left (by decide)).symm
    | some b =>
      refine ⟨b.kind, _, rfl, ?_⟩
      cases b <;> (simp only [Definition.kind]; decide)

/-! ## Spelling of the canonical lexemes -/

@[simp] theorem wellSpelled_punct (p : Punct) : (Lexeme.punct p).wellSpelled = true := rfl

theorem wellSpelled_word {s : String} (h : isName s = true) : (Lexeme.word s).wellSpelled = true := by
  simp only [isName, Bool.and_eq_true] at h
  exact h.1

theorem wellSpelled_valueLexeme {v : String} (h : isValue v = true) : (valueLexeme v).wellSpelled = true := by
  unfold valueLexeme
  split
  · assumption
  · next hn =>
    have hname : isName v = true := by simpa [isValue, hn] using h
    exact wellSpelled_word hname

theorem wellSpelled_typeLexemes {type : String} (h : isTypeName type = true) :
    (typeLexemes type).all Lexeme.wellSpelled = true := by
  unfold typeLexemes
  split_ifs with hi hh
  · decide
  · decide
  · rcases Bool.or_eq_true_iff.1 h with h | h
    · simp only [Primitive.idlName] at hi hh
      simp only [plainPrimitives, Primitive.idlName, List.map_cons, List.map_nil, List.contains_eq_mem,
        List.mem_cons, List.not_mem_nil, or_false, decide_eq_true_eq, hi, hh, false_or] at h
      rcases h with rfl | rfl | rfl | rfl | rfl
      all_goals decide
    · simpa using wellSpelled_word h

theorem wellSpelled_declaratorLexemes {id bound : String} {q : Qualifier} (hid : isName id = true)
    (hb : q.takes bound = true) : (declaratorLexemes id bound q).all Lexeme.wellSpelled = true := by
  have hid := wellSpelled_word hid
  cases q with
  | scalar => simp [declaratorLexemes, hid]
  | optional => simp [declaratorLexemes, hid]
  | array => simp [declaratorLexemes, hid, wellSpelled_valueLexeme hb]
  | vec =>
    by_cases hz : bound = ""
    · simp [declaratorLexemes, hid, hz]
    · have hv : isValue bound = true := by simpa [Qualifier.takes, hz] using hb
      simp [declaratorLexemes, hid, hz, wellSpelled_valueLexeme hv]

theorem wellSpelled_namedLexemes {id type bound : String} {q : Qualifier} (hid : isName id = true)
    (h : isNamedUse type q bound = true) : (namedLexemes id type q bound).all Lexeme.wellSpelled = true := by
  unfold namedLexemes
  unfold isNamedUse at h
  split_ifs with hv hs
  · rw [hv]
    decide
  · rw [if_pos hs] at h
    simp only [Bool.and_eq_true] at h
    rw [List.all_append, wellSpelled_declaratorLexemes hid h.2, hs]
    decide
  · rw [if_neg hs] at h
    split_ifs at h with ho
    · simp only [Bool.and_eq_true] at h
      rw [List.all_append, wellSpelled_declaratorLexemes hid h.2, ho]
      decide
    · simp only [Bool.and_eq_true] at h
      rw [List.all_append, wellSpelled_typeLexemes h.1, wellSpelled_declaratorLexemes hid h.2]
      rfl

theorem wellSpelled_commaSeparated {α : Type} {f : α → List Lexeme} {xs : List α}
    (h : ∀ x ∈ xs, (f x).all Lexeme.wellSpelled = true) :
    (commaSeparated (xs.map f)).all Lexeme.wellSpelled = true := by
  induction xs with
  | nil => rfl
  | cons x xs ih =>
    have hx := h x List.mem_cons_self
    have hxs := ih fun y hy => h y (List.mem_cons_of_mem x hy)
    cases xs with
    | nil => exact hx
    | cons y ys => simpa [commaSeparated, hx] using hxs

theorem wellSpelled_flatMap {α : Type} {f : α → List Lexeme} {xs : List α}
    (h : ∀ x ∈ xs, (f x).all Lexeme.wellSpelled = true) : (xs.flatMap f).all Lexeme.wellSpelled = true := by
  rw [List.all_flatMap]
  exact List.all_eq_true.2 h

theorem wellSpelled_labelLexemes {cases : List String} {isDefault : Bool} (h : labelled cases isDefault = true) :
    (labelLexemes cases isDefault).all Lexeme.wellSpelled = true := by
  unfold labelLexemes
  split_ifs with hd
  · decide
  · rw [labelled, if_neg hd] at h
    simp only [Bool.and_eq_true, List.all_eq_true] at h
    have hcase : (Lexeme.word "case").wellSpelled = true := by decide
    refine wellSpelled_flatMap fun c hc => ?_
    simp [hcase, wellSpelled_valueLexeme (h.2 c hc)]

theorem wellSpelled_operand {s : String} (h : isOperand s = true) : (typeLexemes s).all Lexeme.wellSpelled = true := by
  rcases Bool.or_eq_true_iff.1 h with h | h
  · rw [eq_of_beq h]
    decide
  · exact wellSpelled_typeLexemes h

theorem EnumTag.wellSpelled_lexemes {t : EnumTag} (h : t.grammatical = true) :
    t.lexemes.all Lexeme.wellSpelled = true := by
  simp only [EnumTag.grammatical, Bool.and_eq_true] at h
  simp [EnumTag.lexemes, wellSpelled_word h.1, wellSpelled_valueLexeme h.2]

theorem Procedure.wellSpelled_lexemes {p : Procedure} (h : p.grammatical = true) :
    p.lexemes.all Lexeme.wellSpelled = true := by
  simp only [Procedure.grammatical, Bool.and_eq_true, List.all_eq_true] at h
  obtain ⟨⟨⟨⟨hid, hnum⟩, hres⟩, -⟩, hargs⟩ := h
  have hargs := wellSpelled_commaSeparated fun a ha => wellSpelled_operand (hargs a ha)
  simp [Procedure.lexemes, wellSpelled_operand hres, wellSpelled_word hid, hargs, wellSpelled_valueLexeme hnum]

theorem Version.wellSpelled_lexemes {v : Version} (h : v.grammatical = true) :
    v.lexemes.all Lexeme.wellSpelled = true := by
  simp only [Version.grammatical, Bool.and_eq_true, List.all_eq_true] at h
  obtain ⟨⟨⟨hid, hnum⟩, -⟩, hps⟩ := h
  have hps := wellSpelled_flatMap fun p hp => Procedure.wellSpelled_lexemes (hps p hp)
  have hkey : (Lexeme.word "version").wellSpelled = true := by decide
  simp [Version.lexemes, hps, wellSpelled_word hid, hkey, wellSpelled_valueLexeme hnum]

theorem Program.wellSpelled_lexemes {p : Program} (h : p.grammatical = true) :
    p.lexemes.all Lexeme.wellSpelled = true := by
  simp only [Program.grammatical, Bool.and_eq_true, List.all_eq_true] at h
  obtain ⟨⟨⟨-, hnum⟩, -⟩, hvs⟩ := h
  have hvs := wellSpelled_flatMap fun v hv => Version.wellSpelled_lexemes (hvs v hv)
  simp [Program.lexemes, hvs, wellSpelled_valueLexeme hnum]

theorem wellSpelled_keyword (d : Definition) : (Lexeme.word d.kind).wellSpelled = true := by
  cases d <;> (simp only [Definition.kind]; decide)

mutual

theorem Definition.wellSpelled_bodyLexemes (d : Definition) (h : d.grammaticalBody = true) :
    d.bodyLexemes.all Lexeme.wellSpelled = true := by
  match d with
  | .const _ value => simp [Definition.bodyLexemes, wellSpelled_valueLexeme h]
  | .typedef d => exact d.wellSpelled_lexemes h
  | .struct _ fields =>
    have hf := wellSpelled_fieldLexemes fields h
    have hv : (Lexeme.word "void").wellSpelled = true := by decide
    simp only [Definition.bodyLexemes]
    split_ifs <;> simp [hf, hv]
  | .enum _ tags =>
    simp only [Definition.grammaticalBody, Bool.and_eq_true, List.all_eq_true] at h
    have ht := wellSpelled_commaSeparated fun t ht => EnumTag.wellSpelled_lexemes (h.2 t ht)
    simp [Definition.bodyLexemes, ht]
  | .union _ tagId tagType arms _ =>
    simp only [Definition.grammaticalBody, Bool.and_eq_true] at h
    obtain ⟨⟨⟨⟨hid, htype⟩, -⟩, -⟩, harms⟩ := h
    have ha := wellSpelled_armLexemes arms harms
    have hn := wellSpelled_namedLexemes hid (isNamedUse_discriminant htype)
    have hs : (Lexeme.word "switch").wellSpelled = true := by decide
    simp [Definition.bodyLexemes, ha, hn, hs]
  | .program p => exact Program.wellSpelled_lexemes h

theorem Decl.wellSpelled_lexemes (d : Decl) (h : d.grammatical = true) :
    d.lexemes.all Lexeme.wellSpelled = true := by
  match d with
  | ⟨id, type, q, bound, none⟩ =>
    simp only [Decl.grammatical, Bool.and_eq_true] at h
    exact wellSpelled_namedLexemes h.1 h.2
  | ⟨id, type, q, bound, some b⟩ =>
    simp only [Decl.grammatical, Bool.and_eq_true] at h
    obtain ⟨⟨⟨⟨⟨hid, -⟩, hq⟩, -⟩, -⟩, hb⟩ := h
    simp [Decl.lexemes, wellSpelled_keyword, b.wellSpelled_bodyLexemes hb, wellSpelled_declaratorLexemes hid hq]

theorem wellSpelled_fieldLexemes (fields : List Decl) (h : grammaticalFields fields = true) :
    (fieldLexemes fields).all Lexeme.wellSpelled = true := by
  match fields with
  | [] => rfl
  | d :: ds =>
    simp only [grammaticalFields, Bool.and_eq_true] at h
    simp [fieldLexemes, d.wellSpelled_lexemes h.1, wellSpelled_fieldLexemes ds h.2]

theorem wellSpelled_armLexemes (arms : List Arm) (h : grammaticalArms arms = true) :
    (armLexemes arms).all Lexeme.wellSpelled = true := by
  match arms with
  | [] => rfl
  | ⟨cases, isDefault, d⟩ :: as =>
    simp only [grammaticalArms, Bool.and_eq_true] at h
    obtain ⟨⟨hl, hd⟩, has⟩ := h
    have hdecl : d.lexemes.all Lexeme.wellSpelled = true := by
      rcases Bool.or_eq_true_iff.1 hd with hd | hd
      · rw [Decl.eq_void_of_isNothing hd]
        decide
      · exact d.wellSpelled_lexemes hd
    simp [armLexemes, wellSpelled_labelLexemes hl, hdecl, wellSpelled_armLexemes as has]

end

theorem Definition.wellSpelled_lexemes {d : Definition} (h : d.grammatical = true) :
    d.lexemes.all Lexeme.wellSpelled = true := by
  simp only [grammatical, Bool.and_eq_true] at h
  have hhead : d.headLexemes.all Lexeme.wellSpelled = true := by
    have hid := wellSpelled_word h.1
    cases d <;> simp [headLexemes, hid]
  simp [lexemes, wellSpelled_keyword, hhead, d.wellSpelled_bodyLexemes h.2]

end Xdr
