/-
Runs of the grammar over lexemes.

The state after a token depends on the token's position only in the frames that are open, and no definition keeps a
frame. `Reads st ls st'` is a run over all tokens that have the lexemes `ls`; `Arrives` is the same from the moment a
focus is entered. There is one rule for each focus and each lexeme that it takes, and two for the optional
continuations that a lexeme gives up (`Reads.release`, `Reads.suffix`).

`TypeStart` and `DeclarationStart` are the other direction for first words: where a focus that was reached came from.
-/
import Xdr.Proofs.Schema.Grammatical
import Xdr.Schema.Grammar

namespace Xdr

/-- a sequence that succeeds succeeds in both parts -/
theorem of_bind_eq_ok {ε α β : Type} {x : Except ε α} {f : α → Except ε β} {b : β} (h : x.bind f = .ok b) :
    ∃ a, x = .ok a ∧ f a = .ok b := by
  cases x with
  | error e => cases h
  | ok a => exact ⟨a, rfl, h⟩

end Xdr

namespace Xdr.Grammar

open State

/-- every run over tokens with these lexemes leads from `st` to `st'` -/
def Reads (st : State) (ls : List Lexeme) (st' : State) : Prop :=
  ∀ toks : List Token, toks.map Token.lexeme = ls → st.run toks = .ok st'

/-- entering the focus and then reading leads to `st'`, whatever the focus was before -/
def Arrives (done : Array Definition) (frames : List Frame) (f : Focus) (ls : List Lexeme) (st' : State) : Prop :=
  ∀ f₀, ∃ st, State.enter ⟨done, frames, f₀⟩ f = .ok st ∧ Reads st ls st'

variable {st st₁ st' : State} {done : Array Definition} {fr : Frame} {frames : List Frame} {ls : List Lexeme}
  {l : Lexeme} {p : Punct} {f next : Focus}

/-! ## Runs -/

theorem run_cons (st : State) (tok : Token) (toks : List Token) :
    st.run (tok :: toks) = (st.step tok).bind fun s => s.run toks := rfl

theorem Reads.nil : Reads st [] st := by
  intro toks h
  rw [List.map_eq_nil_iff.1 h]
  rfl

/-- one lexeme; the state in between may depend on the token -/
theorem Reads.cons (h : ∀ tok : Token, tok.lexeme = l → ∃ st₁, st.step tok = .ok st₁ ∧ Reads st₁ ls st') :
    Reads st (l :: ls) st' := by
  intro toks htoks
  obtain ⟨tok, rest, rfl, hl, hrest⟩ := List.map_eq_cons_iff.1 htoks
  obtain ⟨st₁, hstep, hreads⟩ := h tok hl
  rw [run_cons, hstep]
  exact hreads rest hrest

/-! ## One token -/

theorem step_eq (st : State) (tok : Token) : st.step tok =
    (if keeps st.focus tok.lexeme then .ok st else st.release).bind fun s => (s.follow tok).bind fun
      | some (s', f) => s'.enter f
      | none => .error (.unexpected tok.pos (expected s.focus) tok.lexeme) := by
  unfold step
  split_ifs <;> rfl

/-- a focus that takes the token -/
theorem step_of_follow {tok : Token} (hk : keeps st.focus tok.lexeme = true)
    (hf : st.follow tok = .ok (some (st₁, f))) : st.step tok = st₁.enter f := by
  rw [step_eq, if_pos hk]
  simp [Except.bind, hf]

/-- a focus that gives the token up to another one -/
theorem step_of_release {tok : Token} (hk : keeps st.focus tok.lexeme = false) (hr : st.release = .ok st₁)
    (hk₁ : keeps st₁.focus tok.lexeme = true) : st.step tok = st₁.step tok := by
  rw [step_eq, step_eq, if_pos hk₁, if_neg (by rw [hk]; decide), hr]

section

variable {P : State → Focus → Prop} {s : State} {g : Focus} {r : Except SourceError (Option (State × Focus))}

/-- nothing comes of a token that is refused -/
theorem of_follow_refuse (h : (.ok none : Except SourceError (Option (State × Focus))) = .ok (some (st₁, f))) :
    P st₁ f :=
  nomatch h

/-- a focus that goes on with a token, or else looks further -/
theorem of_follow_if {c : Prop} [Decidable c] (h : (if c then .ok (some (s, g)) else r) = .ok (some (st₁, f)))
    (hg : c → P s g) (hr : r = .ok (some (st₁, f)) → P st₁ f) : P st₁ f := by
  split_ifs at h with hc
  · cases h
    exact hg hc
  · exact hr h

/-- a focus that takes a name or a value -/
theorem of_follow_map {α : Type} {o : Option α} {next : α → Focus}
    (h : (.ok (o.map fun a => (s, next a)) : Except SourceError (Option (State × Focus))) = .ok (some (st₁, f)))
    (hg : ∀ a, o = some a → P s (next a)) : P st₁ f := by
  obtain ⟨a, ha, heq⟩ := Option.map_eq_some_iff.1 (Except.ok.inj h)
  cases heq
  exact hg a ha

/-- a focus that takes the first word of a type -/
theorem of_follow_focus {x : Except SourceError (Option Focus)}
    (h : (x.map fun o => o.map fun g => (s, g)) = .ok (some (st₁, f))) (hg : ∀ g, x = .ok (some g) → P s g) :
    P st₁ f := by
  cases x with
  | error e => cases h
  | ok o =>
    cases o with
    | none => cases h
    | some g =>
      cases h
      exact hg _ rfl

end

/-- a state that takes the next token like another one, which may depend on the token -/
theorem Reads.of_step {g : Token → State} (hstep : ∀ tok : Token, tok.lexeme = l → st.step tok = (g tok).step tok)
    (h : ∀ tok, Reads (g tok) (l :: ls) st') : Reads st (l :: ls) st' := by
  intro toks htoks
  obtain ⟨tok, rest, rfl, hl, -⟩ := List.map_eq_cons_iff.1 htoks
  rw [run_cons, hstep tok hl, ← run_cons]
  exact h tok _ htoks

theorem Reads.release (hk : keeps st.focus l = false) (hr : st.release = .ok st₁) (hk₁ : keeps st₁.focus l = true)
    (h : Reads st₁ (l :: ls) st') : Reads st (l :: ls) st' :=
  .of_step (fun _ htok => step_of_release (htok ▸ hk) hr (htok ▸ hk₁)) fun _ => h

/-- the other direction: a state that the next token is given up to -/
theorem Reads.retain (hk : keeps st.focus l = false) (hr : st.release = .ok st₁) (hk₁ : keeps st₁.focus l = true)
    (h : Reads st (l :: ls) st') : Reads st₁ (l :: ls) st' :=
  .of_step (fun _ htok => (step_of_release (htok ▸ hk) hr (htok ▸ hk₁)).symm) fun _ => h

/-- the focus takes every token with this lexeme, and leaves done definitions and frames alone -/
theorem Reads.take (hk : keeps f l = true)
    (hf : ∀ tok : Token, tok.lexeme = l →
      State.follow ⟨done, frames, f⟩ tok = .ok (some (⟨done, frames, f⟩, next)))
    (h : Arrives done frames next ls st') : Reads ⟨done, frames, f⟩ (l :: ls) st' := by
  refine Reads.cons fun tok htok => ?_
  obtain ⟨st₁, henter, hreads⟩ := h f
  refine ⟨st₁, ?_, hreads⟩
  rw [step_of_follow (by rw [htok]; exact hk) (hf tok htok), henter]

theorem Reads.punct (h : Arrives done frames next ls st') :
    Reads ⟨done, frames, .punct p next⟩ (.punct p :: ls) st' :=
  .take rfl (fun tok htok => by simp [follow, htok]) h

theorem Reads.keyword {w : String} (h : Arrives done frames next ls st') :
    Reads ⟨done, frames, .keyword w next⟩ (.word w :: ls) st' :=
  .take rfl (fun tok htok => by simp [follow, htok]) h

theorem asName_word {s : String} (h : isName s = true) : asName (.word s) = some s := by
  simp only [isName, Bool.and_eq_true, Bool.not_eq_true'] at h
  simp [asName, h.2]

theorem asValue_valueLexeme {v : String} (h : isValue v = true) : asValue (valueLexeme v) = some v := by
  unfold valueLexeme
  split_ifs with hn
  · rfl
  · exact asName_word (by simpa [isValue, hn] using h)

theorem Reads.name {role : String} {g : String → Focus} {s : String} (hs : isName s = true)
    (h : Arrives done frames (g s) ls st') : Reads ⟨done, frames, .name role g⟩ (.word s :: ls) st' :=
  .take rfl (fun tok htok => by simp [follow, htok, asName_word hs]) h

theorem Reads.value {g : String → Focus} {v : String} (hv : isValue v = true)
    (h : Arrives done frames (g v) ls st') : Reads ⟨done, frames, .value g⟩ (valueLexeme v :: ls) st' :=
  .take rfl (fun tok htok => by simp [follow, htok, asValue_valueLexeme hv]) h

/-- most foci stay as they are when they are entered -/
theorem Arrives.stay (henter : ∀ f₀, State.enter ⟨done, frames, f₀⟩ f = .ok ⟨done, frames, f⟩)
    (h : Reads ⟨done, frames, f⟩ ls st') : Arrives done frames f ls st' :=
  fun f₀ => ⟨_, henter f₀, h⟩

theorem Arrives.punct (h : Arrives done frames next ls st') :
    Arrives done frames (.punct p next) (.punct p :: ls) st' :=
  .stay (fun _ => rfl) (.punct h)

theorem Arrives.keyword {w : String} (h : Arrives done frames next ls st') :
    Arrives done frames (.keyword w next) (.word w :: ls) st' :=
  .stay (fun _ => rfl) (.keyword h)

theorem Arrives.name {role : String} {g : String → Focus} {s : String} (hs : isName s = true)
    (h : Arrives done frames (g s) ls st') : Arrives done frames (.name role g) (.word s :: ls) st' :=
  .stay (fun _ => rfl) (.name hs h)

theorem Arrives.value {g : String → Focus} {v : String} (hv : isValue v = true)
    (h : Arrives done frames (g v) ls st') : Arrives done frames (.value g) (valueLexeme v :: ls) st' :=
  .stay (fun _ => rfl) (.value hv h)

/-! ## Declarations -/

/-- a declaration that was read is followed by punctuation -/
theorem focus_of_enter_declared {d : Decl} {f₀ : Focus}
    (h : State.enter ⟨done, fr :: frames, f₀⟩ (.declared d) = .ok st) : ∃ q next, st.focus = .punct q next := by
  cases fr with
  | «alias» kw =>
    simp only [enter, declared] at h
    split_ifs at h
    cases h
    exact ⟨_, _, rfl⟩
  | field id fields =>
    cases h
    exact ⟨_, _, rfl⟩
  | discriminant id start =>
    simp only [enter, declared] at h
    split_ifs at h
    cases h
    exact ⟨_, _, rfl⟩
  | arm u cases isDefault =>
    cases h
    exact ⟨_, _, rfl⟩
  | operand start slot => cases h

/-- a declared name that no bracket follows -/
theorem Reads.suffix {d : Decl} (hl : l ≠ .punct .lbracket) (hl' : l ≠ .punct .langle)
    (h : Arrives done (fr :: frames) (.declared d) (l :: ls) st') :
    Reads ⟨done, fr :: frames, .suffix d⟩ (l :: ls) st' := by
  obtain ⟨st₁, henter, hreads⟩ := h (.suffix d)
  obtain ⟨q, next, hfocus⟩ := focus_of_enter_declared henter
  exact Reads.release (by simp [keeps, hl, hl']) henter (by rw [hfocus]; rfl) hreads

theorem valueLexeme_ne_punct (v : String) (p : Punct) : valueLexeme v ≠ .punct p := by
  unfold valueLexeme
  split_ifs <;> exact Lexeme.noConfusion

variable {id type bound : String} {q : Qualifier} {body : Option Definition}

/-- the bound of a vector, or none, up to the closing bracket -/
theorem Reads.limit (hb : Qualifier.vec.takes bound = true)
    (h : Arrives done frames (.declared ⟨id, type, q, bound, body⟩) ls st') :
    Reads ⟨done, frames, .limit ⟨id, type, q, "", body⟩⟩
      ((if bound = "" then [] else [valueLexeme bound]) ++ .punct .rangle :: ls) st' := by
  by_cases hz : bound = ""
  · subst hz
    exact .take rfl (fun tok htok => by simp [follow, htok]) h
  · have hv : isValue bound = true := by simpa [Qualifier.takes, hz] using hb
    rw [if_neg hz]
    refine .take rfl (fun tok htok => ?_) (.punct h)
    simp [follow, htok, valueLexeme_ne_punct, asValue_valueLexeme hv]

/-- the brackets behind a name, up to what follows the closing one -/
theorem Reads.brackets (hb : q.takes bound = true) (hq : q = .array ∨ q = .vec)
    (hopen : ∀ tok : Token, tok.lexeme = .punct .lbracket → State.follow ⟨done, frames, f⟩ tok =
      .ok (some (⟨done, frames, f⟩, .value fun v => .punct .rbracket (.declared ⟨id, type, .array, v, body⟩))))
    (hopen' : ∀ tok : Token, tok.lexeme = .punct .langle → State.follow ⟨done, frames, f⟩ tok =
      .ok (some (⟨done, frames, f⟩, .limit ⟨id, type, .vec, "", body⟩)))
    (hk : ∀ p, p = .lbracket ∨ p = .langle → keeps f (.punct p) = true)
    (h : Arrives done frames (.declared ⟨id, type, q, bound, body⟩) ls st') :
    ∃ ms, declaratorLexemes id bound q = .word id :: ms ∧ Reads ⟨done, frames, f⟩ (ms ++ ls) st' := by
  rcases hq with rfl | rfl
  · exact ⟨_, rfl, .take (hk _ (.inl rfl)) hopen (.value hb (.punct h))⟩
  · refine ⟨_, rfl, ?_⟩
    have hlim := Reads.take (hk _ (.inr rfl)) hopen' (.stay (fun _ => rfl) (Reads.limit hb h))
    simpa using hlim

/-- a declared name with its qualifier, up to a lexeme that opens no bracket -/
theorem Reads.declarator {t : TypeSpec} (ht : ∀ id q, t.decl id q = ⟨id, type, q, "", body⟩) (hid : isName id = true)
    (hb : q.takes bound = true) (hl : l ≠ .punct .lbracket) (hl' : l ≠ .punct .langle)
    (h : Arrives done (fr :: frames) (.declared ⟨id, type, q, bound, body⟩) (l :: ls) st') :
    Reads ⟨done, fr :: frames, .declarator t⟩ (declaratorLexemes id bound q ++ l :: ls) st' := by
  have hplain : ∀ {ms : List Lexeme},
      Reads ⟨done, fr :: frames, .suffix ⟨id, type, .scalar, "", body⟩⟩ ms st' →
      Reads ⟨done, fr :: frames, .declarator t⟩ (.word id :: ms) st' := fun hms =>
    .take rfl (fun tok htok => by simp [follow, htok, asName_word hid, ht]) (.stay (fun _ => rfl) hms)
  have hbrackets : q = .array ∨ q = .vec →
      Reads ⟨done, fr :: frames, .declarator t⟩ (declaratorLexemes id bound q ++ l :: ls) st' := by
    intro hq
    obtain ⟨ms, hms, hreads⟩ := Reads.brackets (f := .suffix ⟨id, type, .scalar, "", body⟩) hb hq
      (fun tok htok => by simp [follow, htok]) (fun tok htok => by simp [follow, htok])
      (fun p hp => by rcases hp with rfl | rfl <;> rfl) h
    rw [hms]
    exact hplain hreads
  cases q with
  | scalar =>
    obtain rfl : bound = "" := by simpa [Qualifier.takes] using hb
    exact hplain (.suffix hl hl' h)
  | optional =>
    obtain rfl : bound = "" := by simpa [Qualifier.takes] using hb
    have hname : Arrives done (fr :: frames) (.name "field name" fun id => .declared ⟨id, type, .optional, "", body⟩)
        (.word id :: l :: ls) st' := .name hid h
    exact .take rfl (fun tok htok => by simp [follow, htok, ht]) hname
  | array => exact hbrackets (.inl rfl)
  | vec => exact hbrackets (.inr rfl)

/-! ## Types -/

theorem typeFocus_name {tok : Token} (h : isName type = true) (htok : tok.lexeme = .word type) :
    typeFocus tok = .ok (some (.typed (.named type))) := by
  simp only [isName, Bool.and_eq_true, Bool.not_eq_true'] at h
  unfold typeFocus
  rw [htok]
  split
  case h_11 => simp [asName, h.2]
  all_goals
    next heq =>
      cases heq
      exact absurd h.2 (by decide)

/-- the words that are types by themselves -/
def basicWords : List String := ["int", "hyper", "float", "double", "bool"]

theorem isTypeName_of_basic {w : String} (hw : w ∈ basicWords) : isTypeName w = true := by
  have hbasic : ∀ w ∈ basicWords, isTypeName w = true := by decide
  exact hbasic w hw

/-- where the first word of a type leads -/
inductive TypeStart (l : Lexeme) : Focus → Prop
  | unsigned (hl : l = .word "unsigned") : TypeStart l .unsigned
  | enum (hl : l = .word "enum") : TypeStart l .enumType
  | struct (hl : l = .word "struct") : TypeStart l .structType
  | union (hl : l = .word "union") : TypeStart l .unionType
  | basic {w : String} (hl : l = .word w) (hw : w ∈ basicWords) : TypeStart l (.typed (.named w))
  | named {n : String} (hn : asName l = some n) : TypeStart l (.typed (.named n))

/-- where the first word of a declaration leads -/
inductive DeclarationStart (l : Lexeme) : Focus → Prop
  | void (hl : l = .word "void") : DeclarationStart l (.declared .void)
  | bytes (hl : l = .word "opaque") : DeclarationStart l (.name "field name" fun id => .opaqueSuffix id)
  | string (hl : l = .word "string") : DeclarationStart l
      (.name "field name" fun id => .punct .langle (.limit { id, typeName := Primitive.string.idlName }))
  | type {f : Focus} (h : TypeStart l f) : DeclarationStart l f

theorem typeFocus_cases {tok : Token} (h : typeFocus tok = .ok (some f)) : TypeStart tok.lexeme f := by
  unfold typeFocus at h
  split at h
  case h_1 hl =>
    cases h
    exact .unsigned hl
  case h_7 => cases h
  case h_8 hl =>
    cases h
    exact .enum hl
  case h_9 hl =>
    cases h
    exact .struct hl
  case h_10 hl =>
    cases h
    exact .union hl
  case h_11 =>
    obtain ⟨n, hn, rfl⟩ := Option.map_eq_some_iff.1 (Except.ok.inj h)
    exact .named hn
  all_goals
    next hl =>
      cases h
      exact .basic hl (by decide)

theorem declarationFocus_cases {tok : Token} (h : declarationFocus tok = .ok (some f)) :
    DeclarationStart tok.lexeme f := by
  unfold declarationFocus at h
  split at h
  case h_1 hl =>
    cases h
    exact .void hl
  case h_2 hl =>
    cases h
    exact .bytes hl
  case h_3 hl =>
    cases h
    exact .string hl
  case h_4 => exact .type (typeFocus_cases h)

theorem operandFocus_cases {tok : Token} (h : operandFocus tok = .ok (some f)) :
    f = .typed (.named Primitive.void.idlName) ∨ TypeStart tok.lexeme f := by
  unfold operandFocus at h
  split at h
  · cases h
    exact .inl rfl
  · exact .inr (typeFocus_cases h)

/-- the words that begin a declaration other than by its type -/
def declarationWords : List String := ["void", "opaque", "string"]

theorem declarationFocus_eq {tok : Token} {w : String} (hw : w ∉ declarationWords) (htok : tok.lexeme = .word w) :
    declarationFocus tok = typeFocus tok ∧ operandFocus tok = typeFocus tok := by
  simp only [declarationWords, List.mem_cons, List.not_mem_nil, or_false, not_or] at hw
  obtain ⟨hv, ho, hs⟩ := hw
  constructor
  · unfold declarationFocus
    split <;> simp_all
  · unfold operandFocus
    split <;> simp_all

/-- a named type from its first word on -/
theorem typeFocus_typeLexemes (ht : isTypeName type = true) :
    ∃ w ms, typeLexemes type = .word w :: ms ∧ w ∉ declarationWords ∧
      ∀ tok : Token, tok.lexeme = .word w → ∃ g, typeFocus tok = .ok (some g) ∧
        ∀ {done frames ls st'}, Arrives done frames (.typed (.named type)) ls st' →
          Arrives done frames g (ms ++ ls) st' := by
  have hplain : typeLexemes type = [.word type] → type ∉ declarationWords →
      (∀ tok : Token, tok.lexeme = .word type → typeFocus tok = .ok (some (.typed (.named type)))) →
      ∃ w ms, typeLexemes type = .word w :: ms ∧ w ∉ declarationWords ∧
        ∀ tok : Token, tok.lexeme = .word w → ∃ g, typeFocus tok = .ok (some g) ∧
          ∀ {done frames ls st'}, Arrives done frames (.typed (.named type)) ls st' →
            Arrives done frames g (ms ++ ls) st' := fun hl hw hf =>
    ⟨type, [], hl, hw, fun tok htok => ⟨_, hf tok htok, fun h => h⟩⟩
  rcases Bool.or_eq_true_iff.1 ht with h | h
  · simp only [plainPrimitives, Primitive.idlName, List.map_cons, List.map_nil, List.contains_eq_mem,
      List.mem_cons, List.not_mem_nil, or_false, decide_eq_true_eq] at h
    rcases h with rfl | rfl | rfl | rfl | rfl | rfl | rfl
    case inr.inl =>
      refine ⟨"unsigned", [.word "int"], rfl, by decide, fun tok htok => ⟨.unsigned, by simp [typeFocus, htok], ?_⟩⟩
      exact fun h => .stay (fun _ => rfl) (.take rfl (fun tok htok => by simp [follow, htok, Primitive.idlName]) h)
    case inr.inr.inr.inl =>
      refine ⟨"unsigned", [.word "hyper"], rfl, by decide, fun tok htok => ⟨.unsigned, by simp [typeFocus, htok], ?_⟩⟩
      exact fun h => .stay (fun _ => rfl) (.take rfl (fun tok htok => by simp [follow, htok, Primitive.idlName]) h)
    all_goals exact hplain rfl (by decide) fun tok htok => by simp [typeFocus, htok]
  · refine hplain ?_ ?_ fun tok htok => typeFocus_name h htok
    · unfold typeLexemes
      split_ifs with hi hh
      · exact absurd h (by rw [hi]; decide)
      · exact absurd h (by rw [hh]; decide)
      · rfl
    · intro hw
      simp only [declarationWords, List.mem_cons, List.not_mem_nil, or_false] at hw
      rcases hw with rfl | rfl | rfl <;> exact absurd h (by decide)

/-- a type of a procedure -/
theorem Reads.operand {slot : Slot} (ht : isOperand type = true)
    (h : Reads ⟨done, frames, slotFocus type slot⟩ ls st') :
    Reads ⟨done, frames, .operand slot⟩ (typeLexemes type ++ ls) st' := by
  have harr : ∀ pos, Arrives done (.operand pos slot :: frames) (.typed (.named type)) ls st' := fun pos f₀ =>
    ⟨_, rfl, h⟩
  rcases Bool.or_eq_true_iff.1 ht with ht | ht
  · obtain rfl : type = "void" := eq_of_beq ht
    refine Reads.cons fun tok htok => ?_
    obtain ⟨st₁, henter, hreads⟩ := harr tok.pos (.operand slot)
    refine ⟨st₁, ?_, hreads⟩
    rw [step_of_follow rfl (f := .typed (.named "void")) (by simp [follow, operandFocus, htok, Primitive.idlName]; rfl)]
    exact henter
  · obtain ⟨w, ms, hms, hw, hfocus⟩ := typeFocus_typeLexemes ht
    rw [hms]
    refine Reads.cons fun tok htok => ?_
    obtain ⟨g, hg, hcont⟩ := hfocus tok htok
    obtain ⟨st₁, henter, hreads⟩ := hcont (harr tok.pos) (.operand slot)
    refine ⟨st₁, ?_, hreads⟩
    rw [step_of_follow rfl (f := g) (by simp [follow, (declarationFocus_eq hw htok).2, hg]; rfl)]
    exact henter

/-- the declaration of a named type, up to a lexeme that opens no bracket -/
theorem Reads.named (hid : isName id = true) (ht : isNamedUse type q bound = true)
    (hfr : ∀ pos slot, fr ≠ .operand pos slot) (hl : l ≠ .punct .lbracket) (hl' : l ≠ .punct .langle)
    (h : Arrives done (fr :: frames) (.declared ⟨id, type, q, bound, none⟩) (l :: ls) st') :
    Reads ⟨done, fr :: frames, .declaration⟩ (namedLexemes id type q bound ++ l :: ls) st' := by
  unfold isNamedUse at ht
  split_ifs at ht with hs ho
  · obtain rfl : type = "string" := hs
    simp only [Bool.and_eq_true, beq_iff_eq] at ht
    obtain ⟨rfl, hb⟩ := ht
    have hname : Arrives done (fr :: frames) (.name "field name" fun id =>
        .punct .langle (.limit ⟨id, "string", .scalar, "", none⟩))
          (declaratorLexemes id bound .vec ++ l :: ls) st' := by
      have hopen := Arrives.punct (p := .langle) (.stay (fun _ => rfl) (Reads.limit hb h))
      simpa [declaratorLexemes] using Arrives.name hid hopen
    exact .take rfl (fun tok htok => by simp [follow, declarationFocus, htok]; rfl) hname
  · obtain rfl : type = "opaque" := ho
    simp only [Bool.and_eq_true, Bool.or_eq_true, beq_iff_eq] at ht
    obtain ⟨ms, hms, hreads⟩ := Reads.brackets (f := .opaqueSuffix id) ht.2 ht.1
      (fun tok htok => by simp [follow, htok]; rfl) (fun tok htok => by simp [follow, htok]; rfl) (fun _ _ => rfl) h
    have hname : Arrives done (fr :: frames) (.name "field name" fun id => .opaqueSuffix id)
        (declaratorLexemes id bound q ++ l :: ls) st' := by
      rw [hms]
      exact .name hid (.stay (fun _ => rfl) hreads)
    exact .take rfl (fun tok htok => by simp [follow, declarationFocus, htok]; rfl) hname
  · simp only [Bool.and_eq_true] at ht
    obtain ⟨w, ms, hms, hw, hfocus⟩ := typeFocus_typeLexemes ht.1
    have hv : type ≠ Primitive.void.idlName := by
      rintro rfl
      exact absurd ht.1 (by decide)
    have htyped : Arrives done (fr :: frames) (.typed (.named type)) (declaratorLexemes id bound q ++ l :: ls) st' := by
      refine fun f₀ => ⟨⟨done, fr :: frames, .declarator (.named type)⟩, ?_,
        .declarator (fun _ _ => rfl) hid ht.2 hl hl' h⟩
      cases fr with
      | operand pos slot => exact absurd rfl (hfr pos slot)
      | _ => rfl
    have hlex : namedLexemes id type q bound = .word w :: (ms ++ declaratorLexemes id bound q) := by
      rw [namedLexemes, if_neg hv, if_neg hs, hms]
      rfl
    rw [hlex, List.cons_append, List.append_assoc]
    refine Reads.cons fun tok htok => ?_
    obtain ⟨g, hg, hcont⟩ := hfocus tok htok
    obtain ⟨st₁, henter, hreads⟩ := hcont htyped .declaration
    refine ⟨st₁, ?_, hreads⟩
    rw [step_of_follow rfl (f := g) (by simp [follow, (declarationFocus_eq hw htok).1, hg]; rfl)]
    exact henter

end Xdr.Grammar
