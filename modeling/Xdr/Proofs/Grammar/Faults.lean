/-
Where the faults of a text stand.

The grammar keeps the token that a definition or the type of a procedure began with, to report it when the rest has been
read. `State.Among` says that what is kept is a token of the text; one step keeps it, and its faults stand at a token of
the text.
- `step_among`, `run_among`: one token, and all of them.
- `exists_reading`: how far the tokens are read. Nothing behind the one that is refused is looked at.
- `pos_ne_stop`: no token stands where the text ends.
- `faults_stand_at_tokens`: a text is read, or truncated, or the fault stands at one of its tokens.
-/
import Mathlib
import Xdr.Proofs.Grammar.Blocks
import Xdr.Proofs.Token.Layout

namespace Xdr

open Grammar State

/-! ## Faults at tokens -/

/-- a fault that names the place of the token, and the token itself as what was found there -/
inductive SourceError.StandsAt (tok : Token) : SourceError → Prop
  | unexpected (e : Expected) : StandsAt tok (.unexpected tok.pos e tok.lexeme)
  | unsupported (feature : Feature) : StandsAt tok (.unsupported tok.pos feature)

/-- what is read satisfies `P`, and a fault stands at one of the tokens -/
def Stands {α : Type} (toks : List Token) (P : α → Prop) : Except SourceError α → Prop
  | .ok a => P a
  | .error e => ∃ tok ∈ toks, e.StandsAt tok

theorem Stands.bind {α β : Type} {toks : List Token} {P : α → Prop} {Q : β → Prop} {x : Except SourceError α}
    {next : α → Except SourceError β} (hx : Stands toks P x) (hnext : ∀ a, x = .ok a → P a → Stands toks Q (next a)) :
    Stands toks Q (x.bind next) := by
  cases x with
  | error e => exact hx
  | ok a => exact hnext a rfl hx

namespace Grammar

variable {st st₁ : State} {f : Focus} {tok : Token} {toks : List Token}

/-- what the frame keeps is a token of the text, or stands at one -/
def Frame.Among (toks : List Token) : Frame → Prop
  | .alias keyword => keyword ∈ toks
  | .discriminant _ start => ∃ tok ∈ toks, tok.pos = start
  | .operand start _ => ∃ tok ∈ toks, tok.pos = start
  | _ => True

def State.Among (toks : List Token) (st : State) : Prop := ∀ fr ∈ st.frames, fr.Among toks

theorem Frame.among_of_beginsAt {fr : Frame} (h : fr.BeginsAt tok) (htok : tok ∈ toks) : fr.Among toks := by
  cases fr with
  | «alias» keyword => exact h ▸ htok
  | discriminant id start => exact ⟨tok, htok, h.symm⟩
  | operand start slot => exact ⟨tok, htok, h.symm⟩
  | _ => trivial

/-! ## Arriving at a focus -/

section

variable {done : Array Definition} {fr : Frame} {frames : List Frame} {f₀ : Focus}

theorem State.Among.tail (h : State.Among toks ⟨done, fr :: frames, f₀⟩) : State.Among toks ⟨done, frames, f⟩ :=
  fun fr' hfr' => h fr' (List.mem_cons_of_mem fr hfr')

theorem State.Among.cons (h : State.Among toks ⟨done, frames, f₀⟩) (hfr : fr.Among toks) :
    State.Among toks ⟨done, fr :: frames, f⟩ := by
  intro fr' hfr'
  rcases List.mem_cons.1 hfr' with rfl | hmem
  · exact hfr
  · exact h fr' hmem

end

theorem typed_among (h : st.Among toks) (t : TypeSpec) : Stands toks (State.Among toks) (st.typed t) := by
  obtain ⟨done, frames, f₀⟩ := st
  rcases frames with _ | ⟨fr, frames⟩
  · exact h
  · cases fr with
    | operand start slot =>
      cases t with
      | named n => exact h.tail
      | body d =>
        obtain ⟨tok, htok, rfl⟩ := h _ List.mem_cons_self
        exact ⟨tok, htok, .unsupported _⟩
    | _ => exact h

theorem declared_among (h : st.Among toks) (d : Decl) : Stands toks (State.Among toks) (st.declared d) := by
  obtain ⟨done, frames, f₀⟩ := st
  rcases frames with _ | ⟨fr, frames⟩
  · exact h
  · have hfr : fr.Among toks := h _ List.mem_cons_self
    cases fr with
    | «alias» keyword =>
      simp only [declared]
      split_ifs
      · exact ⟨keyword, hfr, .unexpected _⟩
      · exact h.tail
    | field id fields => exact h.tail
    | discriminant id start =>
      simp only [declared]
      split_ifs
      · exact h.tail
      · obtain ⟨tok, htok, rfl⟩ := hfr
        exact ⟨tok, htok, .unsupported _⟩
    | arm u cases isDefault => exact h.tail
    | operand start slot =>
      obtain ⟨tok, htok, rfl⟩ := hfr
      exact ⟨tok, htok, .unsupported _⟩

theorem built_among (h : st.Among toks) (d : Definition) : Stands toks (State.Among toks) (st.built d) := by
  unfold built
  split_ifs
  · exact h
  · exact typed_among h _

theorem enter_among (h : st.Among toks) (f : Focus) : Stands toks (State.Among toks) (st.enter f) := by
  cases f with
  | typed t => exact typed_among h t
  | declared d => exact declared_among h d
  | built d => exact built_among h d
  | field | arm => exact h.cons trivial
  | _ => exact h

theorem release_among (h : st.Among toks) : Stands toks (State.Among toks) st.release := by
  unfold release
  split <;> first | exact enter_among h _ | exact h

/-! ## One token -/

theorem standsAt_of_typeFocus {e : SourceError} (h : typeFocus tok = .error e) : e.StandsAt tok := by
  unfold typeFocus at h
  split at h
  case h_7 =>
    cases h
    exact .unsupported _
  all_goals cases h

theorem standsAt_of_declarationFocus {e : SourceError} (h : declarationFocus tok = .error e) : e.StandsAt tok := by
  unfold declarationFocus at h
  split at h
  case h_4 => exact standsAt_of_typeFocus h
  all_goals cases h

theorem standsAt_of_operandFocus {e : SourceError} (h : operandFocus tok = .error e) : e.StandsAt tok := by
  unfold operandFocus at h
  split at h
  case h_2 => exact standsAt_of_typeFocus h
  all_goals cases h

theorem eq_error_of_map {α β : Type} {x : Except SourceError α} {make : α → β} {e : SourceError}
    (h : x.map make = .error e) : x = .error e := by
  cases x with
  | error e' => exact congrArg Except.error (Except.error.inj h)
  | ok a => cases h

/-- only the first word of a type is refused for what it is -/
theorem standsAt_of_follow {e : SourceError} (h : st.follow tok = .error e) : e.StandsAt tok := by
  obtain ⟨done, frames, f₀⟩ := st
  cases f₀ with
  | declaration => exact standsAt_of_declarationFocus (eq_error_of_map h)
  | discriminant id => exact standsAt_of_declarationFocus (eq_error_of_map h)
  | operand slot => exact standsAt_of_operandFocus (eq_error_of_map h)
  | definition | name | value | typed | declared | built | defined | field | arm => cases h
  | _ =>
    simp only [follow] at h
    split_ifs at h

/-- one token keeps what is kept among the tokens, and its fault stands at one of them -/
theorem step_among (h : st.Among toks) (htok : tok ∈ toks) : Stands toks (State.Among toks) (st.step tok) := by
  have hkept : Stands toks (State.Among toks) (if keeps st.focus tok.lexeme then .ok st else st.release) := by
    split_ifs
    · exact h
    · exact release_among h
  rw [step_eq]
  refine hkept.bind fun s _ hs => ?_
  cases hfollow : s.follow tok with
  | error e => exact ⟨tok, htok, standsAt_of_follow hfollow⟩
  | ok r =>
    rcases r with _ | ⟨s₁, f⟩
    · exact ⟨tok, htok, .unexpected _⟩
    · refine enter_among (fun fr hfr => ?_) f
      rcases (follow_leadsOn hfollow).frames fr hfr with hold | hnew
      · exact hs fr hold
      · exact Frame.among_of_beginsAt hnew htok

/-! ## All tokens -/

theorem run_among {ts : List Token} (h : st.Among toks) (hts : ∀ tok ∈ ts, tok ∈ toks) :
    Stands toks (State.Among toks) (st.run ts) := by
  induction ts generalizing st with
  | nil => exact h
  | cons tok ts ih =>
    obtain ⟨htok, hts⟩ := List.forall_mem_cons.1 hts
    rw [run_cons]
    exact (step_among h htok).bind fun s _ hs => ih hs hts

theorem start_among : State.start.Among toks := List.forall_mem_nil _

/-- a text may end, or is truncated, or an optional continuation that its end gives up has a fault -/
theorem finish_among (h : st.Among toks) :
    (∃ e, st.finish = .error (.truncated e)) ∨ Stands toks (fun _ => True) st.finish := by
  have hreleased := release_among h
  cases hrelease : st.release with
  | error e =>
    right
    rw [hrelease] at hreleased
    change Stands toks _ (st.release.bind _)
    rw [hrelease]
    exact hreleased
  | ok s =>
    by_cases hfocus : s.focus = .definition
    · right
      rw [finish_eq_ok_iff.2 ⟨focus_of_release hrelease hfocus, rfl⟩]
      trivial
    · exact .inl ⟨_, finish_of_release hrelease hfocus⟩

/-! ## How far the tokens are read -/

/-- reading the tokens takes `ts` and no other: every definition that is read has a block of them, at least one token,
and reading ends with the tokens or at the first that is refused, whatever stands behind it -/
structure Reading (toks ts : List Token) (st : State) : Prop where
  run : State.start.run ts = .ok st
  blocks : ∃ blocks rest, ReadsBlocks ts st blocks rest
  stops : (toks = ts ∧ parse toks = st.finish) ∨
    ∃ tok us e, toks = ts ++ tok :: us ∧ ∀ us', parse (ts ++ tok :: us') = .error e

/-- a run takes all tokens, or those before the first that is refused -/
theorem run_ok_or_refused (st : State) (toks : List Token) : (∃ st', st.run toks = .ok st') ∨
    ∃ ts tok us s e, toks = ts ++ tok :: us ∧ st.run ts = .ok s ∧ s.step tok = .error e := by
  induction toks generalizing st with
  | nil => exact .inl ⟨st, rfl⟩
  | cons tok toks ih =>
    cases hstep : st.step tok with
    | error e => exact .inr ⟨[], tok, toks, st, e, rfl, rfl, hstep⟩
    | ok s =>
      rcases ih s with ⟨st', hrun⟩ | ⟨ts, tok', us, s', e, rfl, hrun, hrefused⟩
      · left
        refine ⟨st', ?_⟩
        rw [run_cons, hstep]
        exact hrun
      · right
        refine ⟨tok :: ts, tok', us, s', e, rfl, ?_, hrefused⟩
        rw [run_cons, hstep]
        exact hrun

theorem exists_reading (toks : List Token) : ∃ ts st, Reading toks ts st := by
  rcases run_ok_or_refused .start toks with ⟨st, hrun⟩ | ⟨ts, tok, us, st, e, rfl, hrun, hrefused⟩
  · exact ⟨toks, st, hrun, exists_blocks_of_run hrun, .inl ⟨rfl, parse_of_run hrun⟩⟩
  · refine ⟨ts, st, hrun, exists_blocks_of_run hrun, .inr ⟨tok, us, e, rfl, fun us' => parse_of_run_error ?_⟩⟩
    rw [run_append, hrun]
    change (st.step tok).bind _ = _
    rw [hrefused]
    rfl

/-- a text is read, or truncated, or its fault stands at one of the tokens -/
theorem parse_among (toks : List Token) :
    (∃ e, parse toks = .error (.truncated e)) ∨ Stands toks (fun _ => True) (parse toks) := by
  have hrun : Stands toks (State.Among toks) (State.start.run toks) := run_among start_among fun _ htok => htok
  cases hstate : State.start.run toks with
  | error e =>
    rw [hstate] at hrun
    rw [parse_of_run_error hstate]
    exact .inr hrun
  | ok st =>
    rw [hstate] at hrun
    rw [parse_of_run hstate]
    exact finish_among hrun

end Grammar

/-- no token stands where the text ends -/
theorem pos_ne_stop {source : String} {s : Scanned} {tok : Token} (h : scan source = .ok s) (htok : tok ∈ s.tokens) :
    tok.pos ≠ s.stop := by
  obtain ⟨a, b, hsource, hpos⟩ := (splits_of_scan h).1.exists_of_mem htok
  rw [List.nil_append] at hpos
  rw [hpos, (splits_of_scan h).2, hsource]
  intro hstop
  have hnil := eq_nil_of_after_append hstop.symm
  exact chars_ne_nil (wellSpelled_of_mem_scan h tok htok) (List.append_eq_nil_iff.1 hnil).1

/-- **Faults stand at tokens, and reading stays within them.** The tokens of a source are read up to their end or to
the first that is refused, and nothing is looked at behind it; every definition takes a token at least. The outcome is a
list of definitions, or the text is truncated, or the fault names the place of one of the tokens, and that token as what
was found there; the end of the text is never such a place. -/
theorem faults_stand_at_tokens {source : String} {s : Scanned} (h : scan source = .ok s) :
    (∃ ts st, Reading s.tokens ts st) ∧ ((∃ ds, parse s.tokens = .ok ds) ∨
      (∃ e, parse s.tokens = .error (.truncated e)) ∨
      ∃ e, parse s.tokens = .error e ∧ ∃ tok ∈ s.tokens, e.StandsAt tok ∧ tok.pos ≠ s.stop) := by
  refine ⟨exists_reading s.tokens, ?_⟩
  rcases parse_among s.tokens with htruncated | hstands
  · exact .inr (.inl htruncated)
  · cases hparse : parse s.tokens with
    | ok ds => exact .inl ⟨ds, rfl⟩
    | error e =>
      rw [hparse] at hstands
      obtain ⟨tok, htok, hfault⟩ := hstands
      exact .inr (.inr ⟨e, rfl, tok, htok, hfault, pos_ne_stop h htok⟩)

/-- an alias of nothing, which is refused at its keyword once the second word has been read -/
def voidAlias : Scanned :=
  ⟨[⟨.word "typedef", ⟨1, 1⟩⟩, ⟨.word "void", ⟨1, 9⟩⟩, ⟨.punct .semicolon, ⟨1, 13⟩⟩], ⟨1, 14⟩⟩

theorem faults_stand_at_tokens_void : scan "typedef void;" = .ok voidAlias ∧
    parse voidAlias.tokens = .error (.unexpected ⟨1, 1⟩ .nonVoidTypedef (.word "typedef")) ∧
    (∃ ts st, Reading voidAlias.tokens ts st) ∧ ((∃ ds, parse voidAlias.tokens = .ok ds) ∨
      (∃ e, parse voidAlias.tokens = .error (.truncated e)) ∨
      ∃ e, parse voidAlias.tokens = .error e ∧
        ∃ tok ∈ voidAlias.tokens, e.StandsAt tok ∧ tok.pos ≠ voidAlias.stop) := by
  have hscan : scan "typedef void;" = .ok voidAlias := by cbv
  exact ⟨hscan, rfl, faults_stand_at_tokens hscan⟩

end Xdr
