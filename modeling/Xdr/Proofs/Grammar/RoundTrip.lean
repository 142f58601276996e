/-
Canonical text reads back.

One lemma for each production says that the canonical lexemes of a part lead from the focus where the part may begin to
the focus where it has been read, with whatever follows left to read. Bodies, declarations, fields and arms nest in one
another, so their lemmas are proved together, by recursion on the definition.
- `parse_of_lexemes`: tokens that have the canonical lexemes of grammatical definitions are these definitions.
- `parse_schemaText`: so the canonical text of a list of grammatical definitions reads back as that list.
-/
import Xdr.Proofs.Grammar.Steps

namespace Xdr.Grammar

open State

variable {st st' : State} {done : Array Definition} {fr : Frame} {frames : List Frame} {ls : List Lexeme} {l : Lexeme}
  {id : String}

/-! ## Lists -/

/-- items in a row, each of which adds to what has been read -/
theorem Reads.items {α : Type} {f : α → List Lexeme} (next : List α → State) {xs acc : List α}
    (hitem : ∀ x ∈ xs, ∀ acc ls, Reads (next (acc ++ [x])) ls st' → Reads (next acc) (f x ++ ls) st')
    (h : Reads (next (acc ++ xs)) ls st') : Reads (next acc) (xs.flatMap f ++ ls) st' := by
  induction xs generalizing acc with
  | nil => simpa using h
  | cons x xs ih =>
    rw [List.flatMap_cons, List.append_assoc]
    refine hitem x List.mem_cons_self acc _ (ih (fun y hy => hitem y (List.mem_cons_of_mem x hy)) ?_)
    simpa using h

/-- items in a row, one at least, where `next` gives the item up to a state that must have one -/
theorem Reads.someItems {α : Type} {f : α → List Lexeme} (must next : List α → State) {xs acc : List α}
    (hne : xs ≠ []) (hitem : ∀ x ∈ xs, ∀ acc ls, Reads (next (acc ++ [x])) ls st' → Reads (must acc) (f x ++ ls) st')
    (hgive : ∀ x ∈ xs, ∀ acc ls, Reads (must acc) (f x ++ ls) st' → Reads (next acc) (f x ++ ls) st')
    (h : Reads (next (acc ++ xs)) ls st') : Reads (must acc) (xs.flatMap f ++ ls) st' := by
  obtain ⟨x, xs, rfl⟩ := List.exists_cons_of_ne_nil hne
  rw [List.flatMap_cons, List.append_assoc]
  refine hitem x List.mem_cons_self acc _ (Reads.items next (fun y hy acc ls h => ?_) (by simpa using h))
  have hmem := List.mem_cons_of_mem x hy
  exact hgive y hmem acc ls (hitem y hmem acc ls h)

/-- the tags of an enum, up to the closing brace -/
theorem Reads.tags {tags acc : List EnumTag} (hne : tags ≠ []) (ht : ∀ t ∈ tags, t.grammatical = true)
    (h : Arrives done frames (.built (.enum id (acc ++ tags))) ls st') :
    Reads ⟨done, frames, tagFocus id acc⟩ (commaSeparated (tags.map EnumTag.lexemes) ++ .punct .rbrace :: ls) st' := by
  have htag : ∀ {t : EnumTag} {acc : List EnumTag} {ms : List Lexeme}, t.grammatical = true →
      Reads ⟨done, frames, .tagNext id (acc ++ [t])⟩ ms st' →
      Reads ⟨done, frames, tagFocus id acc⟩ (t.lexemes ++ ms) st' := by
    intro t acc ms ht hms
    simp only [EnumTag.grammatical, Bool.and_eq_true] at ht
    exact .name ht.1 (.punct (.value ht.2 (.stay (fun _ => rfl) hms)))
  induction tags generalizing acc with
  | nil => exact absurd rfl hne
  | cons t tags ih =>
    have hhead := ht t List.mem_cons_self
    cases tags with
    | nil => exact htag hhead (.take rfl (fun tok htok => by simp [follow, htok]) h)
    | cons t' tags =>
      have htail : Reads ⟨done, frames, tagFocus id (acc ++ [t])⟩ _ st' :=
        ih (List.cons_ne_nil _ _) (fun u hu => ht u (List.mem_cons_of_mem t hu)) (by simpa using h)
      have hcomma := Reads.take (f := .tagNext id (acc ++ [t])) (l := .punct .comma) rfl
        (fun tok htok => by simp [follow, htok]) (.stay (fun _ => rfl) htail)
      simpa [commaSeparated] using htag hhead hcomma

/-! ## Programs -/

/-- the arguments of a procedure, up to the closing parenthesis -/
theorem Reads.args {v : OpenVersion} {result : String} {args acc : List String} (hne : args ≠ [])
    (ha : ∀ a ∈ args, isOperand a = true)
    (h : Arrives done frames (.punct .equals (.value fun number => .punct .semicolon (.procedureNext
      { v with procedures := v.procedures ++ [⟨id, number, result, acc ++ args⟩] }))) ls st') :
    Reads ⟨done, frames, .operand (.argument v result id acc)⟩
      (commaSeparated (args.map typeLexemes) ++ .punct .rparen :: ls) st' := by
  induction args generalizing acc with
  | nil => exact absurd rfl hne
  | cons a args ih =>
    have hhead := ha a List.mem_cons_self
    cases args with
    | nil => exact Reads.operand hhead (.take rfl (fun tok htok => by simp [follow, slotFocus, htok]) h)
    | cons b args =>
      have htail : Reads ⟨done, frames, .operand (.argument v result id (acc ++ [a]))⟩ _ st' :=
        ih (List.cons_ne_nil _ _) (fun c hc => ha c (List.mem_cons_of_mem a hc)) (by simpa using h)
      have hcomma := Reads.take (f := .argumentNext v result id (acc ++ [a])) (l := .punct .comma) rfl
        (fun tok htok => by simp [follow, htok]) (.stay (fun _ => rfl) htail)
      simpa [commaSeparated] using Reads.operand hhead hcomma

theorem Reads.procedure {v : OpenVersion} {p : Procedure} (hp : p.grammatical = true)
    (h : Reads ⟨done, frames, .procedureNext { v with procedures := v.procedures ++ [p] }⟩ ls st') :
    Reads ⟨done, frames, .operand (.result v)⟩ (p.lexemes ++ ls) st' := by
  simp only [Procedure.grammatical, Bool.and_eq_true, List.all_eq_true, Bool.not_eq_true',
    List.isEmpty_eq_false_iff] at hp
  obtain ⟨⟨⟨⟨hid, hnum⟩, hres⟩, hne⟩, hargs⟩ := hp
  have hnumber : Arrives done frames (.punct .equals (.value fun number => .punct .semicolon (.procedureNext
      { v with procedures := v.procedures ++ [⟨p.id, number, p.result, p.args⟩] })))
      (.punct .equals :: valueLexeme p.number :: .punct .semicolon :: ls) st' :=
    .punct (.value hnum (.punct (.stay (fun _ => rfl) h)))
  have hlist : Reads ⟨done, frames, .operand (.argument v p.result p.id [])⟩ _ st' := .args hne hargs hnumber
  have hname : Reads ⟨done, frames, slotFocus p.result (.result v)⟩ (.word p.id :: .punct .lparen :: _) st' :=
    .name hid (.punct (.stay (fun _ => rfl) hlist))
  simpa [Procedure.lexemes] using Reads.operand hres hname

/-- the procedures of a version, from the first one on -/
theorem Reads.procedures {v : OpenVersion} {ps : List Procedure} (hne : ps ≠ []) (hp : ∀ p ∈ ps, p.grammatical = true)
    (h : Reads ⟨done, frames, .procedureNext { v with procedures := v.procedures ++ ps }⟩ ls st') :
    Reads ⟨done, frames, .operand (.result v)⟩ (ps.flatMap Procedure.lexemes ++ ls) st' := by
  refine Reads.someItems (fun ps => ⟨done, frames, .operand (.result { v with procedures := ps })⟩)
    (fun ps => ⟨done, frames, .procedureNext { v with procedures := ps }⟩) hne
    (fun p hmem acc ls h => .procedure (hp p hmem) h) (fun p _ acc ls h => ?_) h
  obtain ⟨w, ms, hw, -⟩ := typeLexemes_head p.result
  rw [Procedure.lexemes, hw] at h ⊢
  exact .release rfl rfl rfl h

theorem Reads.version {p : OpenProgram} {v : Version} (hv : v.grammatical = true)
    (h : Reads ⟨done, frames, .versionNext { p with versions := p.versions ++ [v] }⟩ ls st') :
    Reads ⟨done, frames, versionFocus p⟩ (v.lexemes ++ ls) st' := by
  simp only [Version.grammatical, Bool.and_eq_true, List.all_eq_true, Bool.not_eq_true',
    List.isEmpty_eq_false_iff] at hv
  obtain ⟨⟨⟨hid, hnum⟩, hne⟩, hps⟩ := hv
  have hclose : Reads ⟨done, frames, .procedureNext { program := p, id := v.id, procedures := v.procedures }⟩
      (.punct .rbrace :: .punct .equals :: valueLexeme v.number :: .punct .semicolon :: ls) st' :=
    .take rfl (fun tok htok => by simp [follow, htok]; rfl)
      (.punct (.value hnum (.punct (.stay (fun _ => rfl) h))))
  have hlist := Reads.procedures (v := { program := p, id := v.id }) hne hps hclose
  have hversion : Reads ⟨done, frames, versionFocus p⟩ (.word "version" :: .word v.id :: .punct .lbrace :: _) st' :=
    .keyword (.name hid (.punct (.stay (fun _ => rfl) hlist)))
  simpa [Version.lexemes] using hversion

theorem Reads.versions {p : OpenProgram} {vs : List Version} (hne : vs ≠ []) (hv : ∀ v ∈ vs, v.grammatical = true)
    (h : Reads ⟨done, frames, .versionNext { p with versions := p.versions ++ vs }⟩ ls st') :
    Reads ⟨done, frames, versionFocus p⟩ (vs.flatMap Version.lexemes ++ ls) st' :=
  .someItems (fun vs => ⟨done, frames, versionFocus { p with versions := vs }⟩)
    (fun vs => ⟨done, frames, .versionNext { p with versions := vs }⟩) hne
    (fun v hmem _ _ h => .version (hv v hmem) h) (fun _ _ _ _ h => .release rfl rfl rfl h) h

/-! ## Bodies and declarations -/

theorem Arrives.field {fields : List Decl} (h : Reads ⟨done, .field id fields :: frames, .declaration⟩ ls st') :
    Arrives done frames (.field id fields) ls st' := fun _ => ⟨_, rfl, h⟩

theorem Arrives.fieldDone {d : Decl} {fields : List Decl}
    (h : Reads ⟨done, frames, .fieldNext id (if d.isVoid then fields else fields ++ [d])⟩ ls st') :
    Arrives done (.field id fields :: frames) (.declared d) (.punct .semicolon :: ls) st' :=
  fun _ => ⟨_, rfl, .punct (.stay (fun _ => rfl) h)⟩

theorem Arrives.armDone {d : Decl} {u : OpenUnion} {cases : List String} {isDefault : Bool}
    (h : Reads ⟨done, frames, .armNext (u.addArm cases isDefault d)⟩ ls st') :
    Arrives done (.arm u cases isDefault :: frames) (.declared d) (.punct .semicolon :: ls) st' :=
  fun _ => ⟨_, rfl, .punct (.stay (fun _ => rfl) h)⟩

theorem Arrives.arm {u : OpenUnion} {cases : List String} {isDefault : Bool}
    (h : Reads ⟨done, .arm u cases isDefault :: frames, .declaration⟩ ls st') :
    Arrives done frames (.arm u cases isDefault) ls st' := fun _ => ⟨_, rfl, h⟩

theorem Reads.labels {u : OpenUnion} {cases acc : List String} (hc : ∀ c ∈ cases, isValue c = true)
    (h : Reads ⟨done, frames, .caseNext u (acc ++ cases)⟩ ls st') :
    Reads ⟨done, frames, .caseNext u acc⟩
      (cases.flatMap (fun c => [.word "case", valueLexeme c, .punct .colon]) ++ ls) st' :=
  .items (fun cs => ⟨done, frames, .caseNext u cs⟩)
    (fun c hmem acc _ h => .take rfl (fun tok htok => by simp [follow, htok])
      (.value (g := fun v => .punct .colon (.caseNext u (acc ++ [v]))) (hc c hmem) (.punct (.stay (fun _ => rfl) h)))) h

/-- the labels of an arm, up to a lexeme that is no label -/
theorem Reads.armHead {u : OpenUnion} {cases : List String} {isDefault : Bool} (hc : labelled cases isDefault = true)
    (hl : l ≠ .word "case") (h : Reads ⟨done, .arm u cases isDefault :: frames, .declaration⟩ (l :: ls) st') :
    Reads ⟨done, frames, .armNext u⟩ (labelLexemes cases isDefault ++ l :: ls) st' := by
  cases isDefault with
  | true =>
    obtain rfl : cases = [] := by simpa [labelled] using hc
    exact .take rfl (fun tok htok => by simp [follow, htok]) (.punct (.arm h))
  | false =>
    simp only [labelled, Bool.false_eq_true, if_false, Bool.and_eq_true, Bool.not_eq_true', List.isEmpty_eq_false_iff,
      List.all_eq_true] at hc
    obtain ⟨c, cs, rfl⟩ := List.exists_cons_of_ne_nil hc.1
    have hgive : Reads ⟨done, frames, .caseNext u (c :: cs)⟩ (l :: ls) st' :=
      .release (by simp [keeps, hl]) rfl rfl h
    have hlabels : Reads ⟨done, frames, .caseNext u [c]⟩ _ st' :=
      .labels (fun d hd => hc.2 d (List.mem_cons_of_mem c hd)) hgive
    have hfirst : Arrives done frames (.value fun v => .punct .colon (.caseNext u [v]))
        (valueLexeme c :: .punct .colon :: _) st' :=
      .value (hc.2 c List.mem_cons_self) (.punct (.stay (fun _ => rfl) hlabels))
    simpa [labelLexemes] using Reads.take (f := .armNext u) (l := .word "case") rfl
      (fun tok htok => by simp [follow, htok]) hfirst

/-- no value is declared -/
theorem Reads.nothing (h : Arrives done frames (.declared .void) ls st') :
    Reads ⟨done, frames, .declaration⟩ (Decl.void.lexemes ++ ls) st' :=
  .take rfl (fun tok htok => by simp [follow, declarationFocus, htok, Primitive.idlName]; rfl) h

/-- what a focus leads to does not depend on the focus before it, inside of a declaration -/
theorem enter_congr (f f₀ f₁ : Focus) :
    State.enter ⟨done, fr :: frames, f₀⟩ f = State.enter ⟨done, fr :: frames, f₁⟩ f := by
  cases f <;> cases fr <;> rfl

/-- the discriminant of a union, up to the closing parenthesis -/
theorem Reads.discriminant {tagId tagType : String} (hid : isName tagId = true)
    (ht : isDiscriminantType tagType = true)
    (h : Arrives done frames
      (.punct .rparen (.punct .lbrace (.armNext { id, tagId, tagType }))) (.punct .rparen :: ls) st') :
    Reads ⟨done, frames, .discriminant id⟩ (namedLexemes tagId tagType .scalar "" ++ .punct .rparen :: ls) st' := by
  have huse := isNamedUse_discriminant ht
  have hplain : isDiscriminant ⟨tagId, tagType, .scalar, "", none⟩ = true := by
    simp [isDiscriminant, Decl.isVoid, Decl.isInline, isName_ne_empty hid, isNamedUse_ne_void huse,
      isNamedUse_ne_empty huse]
  have hdecl : ∀ pos, Reads ⟨done, .discriminant id pos :: frames, .declaration⟩
      (namedLexemes tagId tagType .scalar "" ++ .punct .rparen :: ls) st' := by
    intro pos
    refine .named hid huse (fun _ _ => Frame.noConfusion) (by decide) (by decide) fun f₀ => ?_
    obtain ⟨st, henter, hreads⟩ := h f₀
    refine ⟨st, ?_, hreads⟩
    rw [← henter]
    simp [enter, declared, hplain]
  obtain ⟨w, ms, hw, -⟩ := namedLexemes_head tagId tagType "" .scalar
  rw [hw] at hdecl ⊢
  refine .of_step (fun tok _ => ?_) fun tok => hdecl tok.pos
  rw [step_eq, step_eq]
  simp only [keeps, if_true, Except.bind, follow]
  cases declarationFocus tok with
  | error e => rfl
  | ok r => cases r with
    | none => rfl
    | some f => exact enter_congr f _ _

/-- what follows the keyword and the name of a definition -/
def bodyFocus : Definition → Focus
  | .const id _ => .punct .equals (.value fun value => .built (.const id value))
  | .typedef _ => .declaration
  | .struct id _ => .punct .lbrace (.field id [])
  | .enum id _ => .punct .lbrace (tagFocus id [])
  | .union id .. => .keyword "switch" (.punct .lparen (.discriminant id))
  | .program p => .punct .lbrace (versionFocus { id := p.id })

/-- what follows the keyword of a type in a declaration: a body, or the name of a type -/
def typeFocusOf : Definition → Focus
  | .enum .. => .enumType
  | .struct .. => .structType
  | _ => .unionType

theorem declarationFocus_kind {b : Definition} {tok : Token} (hb : b.isBody = true)
    (htok : tok.lexeme = .word b.kind) : declarationFocus tok = .ok (some (typeFocusOf b)) := by
  cases b with
  | const id v => cases hb
  | typedef d => cases hb
  | program p => cases hb
  | _ => simp [declarationFocus, typeFocus, htok, Definition.kind, typeFocusOf]

/-- the body of a type declared inline begins like the body of a named one -/
theorem Reads.inlineBody {b : Definition} (hb : b.isBody = true) (hid : b.id = "")
    (h : Reads ⟨done, frames, bodyFocus b⟩ (b.bodyLexemes ++ ls) st') :
    Reads ⟨done, frames, typeFocusOf b⟩ (b.bodyLexemes ++ ls) st' := by
  cases b with
  | const id v => cases hb
  | typedef d => cases hb
  | program p => cases hb
  | struct id fields =>
    obtain rfl : id = "" := hid
    refine .of_step (fun tok htok => ?_) fun _ => h
    rw [step_eq, step_eq]
    simp [keeps, follow, htok, bodyFocus, typeFocusOf, Except.bind, enter]
  | enum id tags =>
    obtain rfl : id = "" := hid
    refine .of_step (fun tok htok => ?_) fun _ => h
    rw [step_eq, step_eq]
    simp [keeps, follow, htok, bodyFocus, typeFocusOf, Except.bind, enter, tagFocus]
  | union id tagId tagType arms hd =>
    obtain rfl : id = "" := hid
    refine .of_step (fun tok htok => ?_) fun _ => h
    rw [step_eq, step_eq]
    simp [keeps, follow, htok, bodyFocus, typeFocusOf, Except.bind, enter]

theorem fieldLexemes_head {d : Decl} {ds : List Decl} (h : grammaticalFields (d :: ds) = true) :
    ∃ w ms, fieldLexemes (d :: ds) = .word w :: ms := by
  simp only [grammaticalFields, Bool.and_eq_true] at h
  obtain ⟨w, ms, hw, -⟩ := Decl.lexemes_head (d := d) (by simp [h.1])
  exact ⟨w, _, by rw [fieldLexemes, hw]; rfl⟩

mutual

/-- the body of a definition -/
theorem reads_body (d : Definition) (hd : d.grammaticalBody = true) (hkind : d.kind ≠ "typedef")
    {done : Array Definition} {frames : List Frame} {ls : List Lexeme} {st' : State}
    (h : Arrives done frames (.built d) ls st') : Reads ⟨done, frames, bodyFocus d⟩ (d.bodyLexemes ++ ls) st' := by
  match d with
  | .const id value => exact .punct (.value hd h)
  | .typedef _ => exact absurd rfl hkind
  | .struct id fields =>
    have hclose : Reads ⟨done, frames, .fieldNext id fields⟩ (.punct .rbrace :: ls) st' :=
      .take rfl (fun tok htok => by simp [follow, htok]) h
    have hfields : Reads ⟨done, frames, .fieldNext id []⟩ _ st' := reads_fields fields hd hclose
    match fields with
    | [] => exact .punct (.field (.nothing (.fieldDone hclose)))
    | f :: fs =>
      obtain ⟨w, ms, hw⟩ := fieldLexemes_head hd
      rw [hw] at hfields
      have hfirst : Reads ⟨done, .field id [] :: frames, .declaration⟩ (.word w :: (ms ++ .punct .rbrace :: ls)) st' :=
        .retain rfl rfl rfl hfields
      simpa [Definition.bodyLexemes, bodyFocus, hw] using Reads.punct (.field hfirst)
  | .enum id tags =>
    simp only [Definition.grammaticalBody, Bool.and_eq_true, Bool.not_eq_true', List.isEmpty_eq_false_iff,
      List.all_eq_true] at hd
    have htags : Reads ⟨done, frames, tagFocus id []⟩ _ st' := .tags hd.1 hd.2 h
    simpa [Definition.bodyLexemes, bodyFocus] using Reads.punct (.stay (fun _ => rfl) htags)
  | .union id tagId tagType arms hasDefault =>
    simp only [Definition.grammaticalBody, Bool.and_eq_true, Bool.not_eq_true', List.isEmpty_eq_false_iff,
      beq_iff_eq] at hd
    obtain ⟨⟨⟨⟨hid, htype⟩, hne⟩, rfl⟩, harms⟩ := hd
    have hclose : Reads ⟨done, frames, .armNext ⟨id, tagId, tagType, arms, arms.any Arm.isDefault⟩⟩
        (.punct .rbrace :: ls) st' :=
      .take rfl (fun tok htok => by simp [follow, htok, hne, OpenUnion.close]) h
    have harms : Reads ⟨done, frames, .armNext { id, tagId, tagType }⟩ (armLexemes arms ++ .punct .rbrace :: ls) st' :=
      reads_arms arms harms (by simpa using hclose)
    have htag := Reads.discriminant hid htype (.punct (.punct (.stay (fun _ => rfl) harms)))
    simpa [Definition.bodyLexemes, bodyFocus] using Reads.keyword (w := "switch") (.punct (.stay (fun _ => rfl) htag))
  | .program p =>
    simp only [Definition.grammaticalBody, Program.grammatical, Bool.and_eq_true, Bool.not_eq_true',
      List.isEmpty_eq_false_iff, List.all_eq_true] at hd
    obtain ⟨⟨⟨-, hnum⟩, hne⟩, hvs⟩ := hd
    have hclose : Reads ⟨done, frames, .versionNext ⟨p.id, p.versions⟩⟩
        (.punct .rbrace :: .punct .equals :: valueLexeme p.number :: ls) st' :=
      .take rfl (fun tok htok => by simp [follow, htok]; rfl) (.punct (.value hnum h))
    have hversions := Reads.versions (p := { id := p.id }) hne hvs hclose
    simpa [Definition.bodyLexemes, bodyFocus, Program.lexemes] using Reads.punct (.stay (fun _ => rfl) hversions)

/-- a declaration, up to a lexeme that opens no bracket -/
theorem reads_decl (d : Decl) (hd : d.grammatical = true) {done : Array Definition} {fr : Frame} {frames : List Frame}
    {l : Lexeme} {ls : List Lexeme} {st' : State} (hfr : ∀ pos slot, fr ≠ .operand pos slot)
    (hl : l ≠ .punct .lbracket) (hl' : l ≠ .punct .langle)
    (h : Arrives done (fr :: frames) (.declared d) (l :: ls) st') :
    Reads ⟨done, fr :: frames, .declaration⟩ (d.lexemes ++ l :: ls) st' := by
  match d with
  | ⟨id, type, q, bound, none⟩ =>
    simp only [Decl.grammatical, Bool.and_eq_true] at hd
    exact .named hd.1 hd.2 hfr hl hl' h
  | ⟨id, type, q, bound, some b⟩ =>
    simp only [Decl.grammatical, Bool.and_eq_true, beq_iff_eq] at hd
    obtain ⟨⟨⟨⟨⟨hid, rfl⟩, hq⟩, hb⟩, hbid⟩, hbody⟩ := hd
    have hname : Reads ⟨done, fr :: frames, .declarator (.body b)⟩ (declaratorLexemes id bound q ++ l :: ls) st' :=
      .declarator (fun _ _ => rfl) hid hq hl hl' h
    have hbuilt : Arrives done (fr :: frames) (.built b) (declaratorLexemes id bound q ++ l :: ls) st' := by
      refine fun f₀ => ⟨_, ?_, hname⟩
      cases fr with
      | operand pos slot => exact absurd rfl (hfr pos slot)
      | _ => rfl
    have hkind : b.kind ≠ "typedef" := by
      rintro hk
      cases b with
      | typedef d => cases hb
      | _ => exact absurd hk (by simp [Definition.kind])
    have hinline := Reads.inlineBody hb hbid (reads_body b hbody hkind hbuilt)
    have hstay : Arrives done (fr :: frames) (typeFocusOf b) _ st' := .stay (fun _ => by cases b <;> rfl) hinline
    simpa [Decl.lexemes] using Reads.take (f := .declaration) (l := .word b.kind) rfl
      (fun tok htok => by simp [follow, declarationFocus_kind hb htok]; rfl) hstay

/-- fields in a row -/
theorem reads_fields (fields : List Decl) (hf : grammaticalFields fields = true) {done : Array Definition}
    {frames : List Frame} {id : String} {acc : List Decl} {ls : List Lexeme} {st' : State}
    (h : Reads ⟨done, frames, .fieldNext id (acc ++ fields)⟩ ls st') :
    Reads ⟨done, frames, .fieldNext id acc⟩ (fieldLexemes fields ++ ls) st' := by
  match fields with
  | [] => simpa [fieldLexemes] using h
  | d :: ds =>
    obtain ⟨w, ms, hw⟩ := fieldLexemes_head hf
    simp only [grammaticalFields, Bool.and_eq_true] at hf
    have hrest : Reads ⟨done, frames, .fieldNext id (acc ++ [d])⟩ (fieldLexemes ds ++ ls) st' :=
      reads_fields ds hf.2 (by simpa using h)
    have hfield : Reads ⟨done, .field id acc :: frames, .declaration⟩ (fieldLexemes (d :: ds) ++ ls) st' := by
      rw [fieldLexemes, List.append_assoc]
      refine reads_decl d hf.1 (fun _ _ => nofun) (by decide) (by decide) (.fieldDone ?_)
      rw [Decl.isVoid_of_grammatical hf.1]
      exact hrest
    rw [hw] at hfield ⊢
    exact .release rfl rfl rfl hfield

/-- arms in a row -/
theorem reads_arms (arms : List Arm) (ha : grammaticalArms arms = true) {done : Array Definition} {frames : List Frame}
    {u : OpenUnion} {ls : List Lexeme} {st' : State}
    (h : Reads ⟨done, frames, .armNext { u with
      arms := u.arms ++ arms, hasDefault := u.hasDefault || arms.any Arm.isDefault }⟩ ls st') :
    Reads ⟨done, frames, .armNext u⟩ (armLexemes arms ++ ls) st' := by
  match arms with
  | [] => simpa [armLexemes] using h
  | ⟨cases, isDefault, d⟩ :: as =>
    simp only [grammaticalArms, Bool.and_eq_true] at ha
    obtain ⟨⟨hlabels, hd⟩, has⟩ := ha
    have hrest : Reads ⟨done, frames, .armNext (u.addArm cases isDefault d)⟩ (armLexemes as ++ ls) st' :=
      reads_arms as has (by simpa [OpenUnion.addArm, Bool.or_assoc] using h)
    have hdecl : Reads ⟨done, .arm u cases isDefault :: frames, .declaration⟩
        (d.lexemes ++ .punct .semicolon :: (armLexemes as ++ ls)) st' := by
      rcases Bool.or_eq_true_iff.1 hd with hn | hg
      · rw [Decl.eq_void_of_isNothing hn] at hrest ⊢
        exact .nothing (.armDone hrest)
      · exact reads_decl d hg (fun _ _ => nofun) (by decide) (by decide) (.armDone hrest)
    obtain ⟨w, ms, hw, hcase⟩ := Decl.lexemes_head hd
    rw [hw] at hdecl
    simpa [armLexemes, hw] using Reads.armHead hlabels (by simpa using hcase) hdecl

end

/-! ## Schemas -/

theorem definitionFocus_kind {d : Definition} (hd : d.kind ≠ "typedef") : ∃ role, ∀ tok : Token,
    tok.lexeme = .word d.kind → definitionFocus tok = some ([], .name role fun id => bodyFocus (d.rename id)) := by
  cases d with
  | typedef d => exact absurd rfl hd
  | _ => exact ⟨_, fun tok htok => by simp [definitionFocus, htok, Definition.kind]; exact ⟨rfl, rfl⟩⟩

/-- a typedef; its name stands in its declaration -/
theorem Reads.typedef {d : Decl} (hd : d.grammatical = true)
    (h : Reads ⟨done.push (.typedef d), [], .definition⟩ ls st') :
    Reads ⟨done, [], .definition⟩ ((Definition.typedef d).lexemes ++ ls) st' := by
  have hdecl : ∀ tok, Reads ⟨done, [.alias tok], .declaration⟩ (d.lexemes ++ .punct .semicolon :: ls) st' := by
    intro tok
    have hdefined : Reads ⟨done, [], .punct .semicolon (.defined (.typedef d))⟩ (.punct .semicolon :: ls) st' :=
      .punct fun _ => ⟨_, rfl, h⟩
    refine reads_decl d hd (fun _ _ => nofun) (by decide) (by decide) fun _ => ⟨_, ?_, hdefined⟩
    simp [enter, declared, Decl.isVoid_of_grammatical hd]
  have hlex : (Definition.typedef d).lexemes ++ ls = .word "typedef" :: (d.lexemes ++ .punct .semicolon :: ls) := by
    simp [Definition.lexemes, Definition.kind, Definition.headLexemes, Definition.bodyLexemes]
  rw [hlex]
  refine .cons fun tok htok => ⟨_, ?_, hdecl tok⟩
  rw [step_of_follow rfl (f := .declaration) (by simp [follow, definitionFocus, htok]; rfl)]
  rfl

/-- a definition of the top level -/
theorem Reads.definition {d : Definition} (hd : d.grammatical = true)
    (h : Reads ⟨done.push d, [], .definition⟩ ls st') : Reads ⟨done, [], .definition⟩ (d.lexemes ++ ls) st' := by
  simp only [Definition.grammatical, Bool.and_eq_true] at hd
  by_cases hkind : d.kind = "typedef"
  · cases d with
    | typedef d => exact .typedef hd.2 h
    | _ => exact absurd hkind (by simp [Definition.kind])
  · obtain ⟨role, hfocus⟩ := definitionFocus_kind hkind
    have hbody : Reads ⟨done, [], bodyFocus d⟩ (d.bodyLexemes ++ .punct .semicolon :: ls) st' :=
      reads_body d hd.2 hkind fun _ => ⟨_, rfl, .punct fun _ => ⟨_, rfl, h⟩⟩
    have hname : Arrives done [] (.name role fun id => bodyFocus (d.rename id))
        (.word d.id :: (d.bodyLexemes ++ .punct .semicolon :: ls)) st' := by
      refine .name hd.1 ?_
      rw [Definition.rename_id]
      exact .stay (fun _ => by cases d <;> rfl) hbody
    have hlex : d.lexemes ++ ls = .word d.kind :: .word d.id :: (d.bodyLexemes ++ .punct .semicolon :: ls) := by
      rw [Definition.lexemes, Definition.headLexemes_of_ne hkind]
      simp
    rw [hlex]
    exact .take rfl (fun tok htok => by simp [follow, hfocus tok htok]) hname

/-- tokens that have the canonical lexemes of grammatical definitions are these definitions -/
theorem parse_of_lexemes {ds : List Definition} {toks : List Token} (hd : ∀ d ∈ ds, d.grammatical = true)
    (htoks : toks.map Token.lexeme = ds.flatMap Definition.lexemes) : parse toks = .ok ds := by
  have hreads : Reads start (ds.flatMap Definition.lexemes ++ []) ⟨ds.toArray, [], .definition⟩ :=
    .items (fun ds => ⟨ds.toArray, [], .definition⟩) (fun d hmem acc _ h => .definition (hd d hmem) (by simpa using h))
      .nil
  rw [parse, hreads toks (by simpa using htoks)]
  rfl

end Xdr.Grammar

namespace Xdr

theorem exists_scan_schemaText {ds : List Definition} (h : ∀ d ∈ ds, d.grammatical = true) :
    ∃ s, scan (schemaText ds) = .ok s ∧ Grammar.parse s.tokens = .ok ds := by
  have hspelled : ∀ l ∈ ds.flatMap Definition.lexemes, l.wellSpelled = true :=
    List.all_eq_true.1 (wellSpelled_flatMap fun d hd => d.wellSpelled_lexemes (h d hd))
  obtain ⟨s, hscan, hlex⟩ := exists_scan_render hspelled
  exact ⟨s, hscan, Grammar.parse_of_lexemes h hlex⟩

/-- **Canonical text reads back.** The canonical text of definitions that the grammar can express is scanned and parsed
into exactly these definitions, in order, with every bound, label, value and inline body as written. -/
theorem parse_schemaText (ds : List Definition) (h : ∀ d ∈ ds, d.grammatical = true) :
    ((scan (schemaText ds)).bind fun s => Grammar.parse s.tokens) = .ok ds := by
  obtain ⟨s, hscan, hparse⟩ := exists_scan_schemaText h
  rw [hscan]
  exact hparse

/-- one definition of each kind, with bodies inside of bodies -/
def sampleSchema : List Definition :=
  [.const "MAX" "0x10",
    .typedef { id := "name", typeName := "string", bound := "MAX" },
    .enum "color" [⟨"RED", "0"⟩, ⟨"BLUE", "MAX"⟩],
    .struct "item" [⟨"key", "opaque", .array, "16", none⟩, ⟨"next", "item", .optional, "", none⟩,
      ⟨"state", "", .vec, "", some (.struct "" [⟨"c", "", .scalar, "", some (.enum "" [⟨"ON", "1"⟩])⟩])⟩],
    .union "value" "kind" "color" [⟨["RED", "7"], false, ⟨"n", "unsigned hyper", .vec, "MAX", none⟩⟩,
      ⟨[], true, .void⟩] true,
    .program ⟨"calls", "9", [⟨"first", "1", [⟨"ping", "0", "void", ["void"]⟩, ⟨"put", "1", "bool", ["item", "int"]⟩]⟩]⟩]

theorem parse_schemaText_sample : (∀ d ∈ sampleSchema, d.grammatical = true) ∧
    ((scan (schemaText sampleSchema)).bind fun s => Grammar.parse s.tokens) = .ok sampleSchema :=
  ⟨by decide, parse_schemaText sampleSchema (by decide)⟩

end Xdr
