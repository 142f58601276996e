/-
Positions in the grammar.

A position is carried along and reported, and never looked at: the same tokens at other positions do the same, at those
positions. Nor does what was read before bear on it but as the definitions that are done.
- `step_moved`, `run_moved`: one token, and all of them, at other positions and behind other definitions.
- `parse_eq_ok_of_lexemes_eq`: tokens with the same lexemes make up the same definitions.
-/
import Xdr.Proofs.Grammar.Steps

namespace Xdr

/-! ## Other positions -/

def Token.moved (f : Position → Position) (t : Token) : Token := ⟨t.lexeme, f t.pos⟩

/-- an error of a line stands at its start -/
def SourceError.moved (f : Position → Position) : SourceError → SourceError
  | .invalidCharacter p c => .invalidCharacter (f p) c
  | .unterminatedComment line => .unterminatedComment (f ⟨line, 1⟩).line
  | .unexpected p e found => .unexpected (f p) e found
  | .unsupported p feature => .unsupported (f p) feature
  | .truncated e => .truncated e
  | .clash c => .clash c

/-- a result at other positions, where `g` moves what is read -/
def resultMoved {α : Type} (f : Position → Position) (g : α → α) : Except SourceError α → Except SourceError α
  | .ok a => .ok (g a)
  | .error e => .error (e.moved f)

/-- what is done with a result at other positions is done there -/
theorem resultMoved_bind {α β : Type} {f : Position → Position} {g : α → α} {g' : β → β}
    {next next' : α → Except SourceError β} (hnext : ∀ a, next' (g a) = resultMoved f g' (next a))
    (x : Except SourceError α) : (resultMoved f g x).bind next' = resultMoved f g' (x.bind next) := by
  cases x with
  | error e => rfl
  | ok a => exact hnext a

/-- what is made of a result without positions is the same elsewhere -/
theorem resultMoved_map {α β : Type} {f : Position → Position} {g : β → β} {make make' : α → β}
    (hmake : ∀ a, make' a = g (make a)) (x : Except SourceError α) :
    (resultMoved f id x).map make' = resultMoved f g (x.map make) := by
  cases x with
  | error e => rfl
  | ok a => exact congrArg Except.ok (hmake a)

namespace Grammar

open State

def Frame.moved (f : Position → Position) : Frame → Frame
  | .alias keyword => .alias (keyword.moved f)
  | .discriminant id start => .discriminant id (f start)
  | .operand start slot => .operand (f start) slot
  | fr => fr

/-- the same state at other positions, when other definitions are done -/
def State.moved (done : Array Definition) (f : Position → Position) (st : State) : State :=
  ⟨done ++ st.done, st.frames.map (Frame.moved f), st.focus⟩

variable (done : Array Definition) (f : Position → Position) (st : State)

/-! ## Arriving at a focus -/

theorem typed_moved (t : TypeSpec) :
    (st.moved done f).typed t = resultMoved f (State.moved done f) (st.typed t) := by
  obtain ⟨ds, _ | ⟨fr, frames⟩, focus⟩ := st
  · cases t <;> rfl
  · cases fr <;> cases t <;> rfl

theorem declared_moved (d : Decl) :
    (st.moved done f).declared d = resultMoved f (State.moved done f) (st.declared d) := by
  obtain ⟨ds, _ | ⟨fr, frames⟩, focus⟩ := st
  · rfl
  · cases fr with
    | «alias» keyword =>
      simp only [State.moved, State.declared, List.map_cons, Frame.moved]
      split_ifs <;> rfl
    | discriminant id start =>
      simp only [State.moved, State.declared, List.map_cons, Frame.moved]
      split_ifs <;> rfl
    | _ => rfl

theorem built_moved (d : Definition) :
    (st.moved done f).built d = resultMoved f (State.moved done f) (st.built d) := by
  have hframes : (st.moved done f).frames.isEmpty = st.frames.isEmpty := List.isEmpty_map
  unfold State.built
  rw [hframes]
  split_ifs
  · rfl
  · exact typed_moved done f st (.body d)

theorem enter_moved (focus : Focus) :
    (st.moved done f).enter focus = resultMoved f (State.moved done f) (st.enter focus) := by
  cases focus with
  | typed t => exact typed_moved done f st t
  | declared d => exact declared_moved done f st d
  | built d => exact built_moved done f st d
  | defined d => simp [State.enter, State.moved, resultMoved]
  | _ => rfl

theorem release_moved : (st.moved done f).release = resultMoved f (State.moved done f) st.release := by
  obtain ⟨ds, frames, focus⟩ := st
  cases focus with
  | unsigned | suffix | fieldNext | caseNext | procedureNext | versionNext =>
    unfold State.release
    exact enter_moved done f ⟨ds, frames, _⟩ _
  | _ => rfl

/-! ## One token -/

theorem definitionFocus_moved (tok : Token) : definitionFocus (tok.moved f) =
    (definitionFocus tok).map fun r => (r.1.map (Frame.moved f), r.2) := by
  obtain ⟨l, pos⟩ := tok
  unfold definitionFocus
  dsimp only [Token.moved]
  split <;> simp_all [Frame.moved, Token.moved]

theorem typeFocus_moved (tok : Token) : typeFocus (tok.moved f) = resultMoved f id (typeFocus tok) := by
  obtain ⟨l, pos⟩ := tok
  unfold typeFocus
  dsimp only [Token.moved]
  split <;> simp_all [resultMoved, SourceError.moved]

theorem declarationFocus_moved (tok : Token) :
    declarationFocus (tok.moved f) = resultMoved f id (declarationFocus tok) := by
  have htype := typeFocus_moved f tok
  obtain ⟨l, pos⟩ := tok
  unfold declarationFocus
  dsimp only [Token.moved] at htype ⊢
  split <;> simp_all [resultMoved]

theorem operandFocus_moved (tok : Token) : operandFocus (tok.moved f) = resultMoved f id (operandFocus tok) := by
  have htype := typeFocus_moved f tok
  obtain ⟨l, pos⟩ := tok
  unfold operandFocus
  dsimp only [Token.moved] at htype ⊢
  split <;> simp_all [resultMoved]

theorem follow_moved (tok : Token) : (st.moved done f).follow (tok.moved f) =
    resultMoved f (Option.map (Prod.map (State.moved done f) id)) (st.follow tok) := by
  have hdefinition := definitionFocus_moved f tok
  have hdeclaration := declarationFocus_moved f tok
  have hoperand := operandFocus_moved f tok
  obtain ⟨ds, frames, focus⟩ := st
  obtain ⟨l, pos⟩ := tok
  dsimp only [Token.moved] at hdefinition hdeclaration hoperand
  cases focus with
  | definition =>
    dsimp only [State.follow, State.moved, Token.moved]
    rw [hdefinition]
    cases definitionFocus ⟨l, pos⟩ <;> rfl
  | declaration | discriminant id =>
    dsimp only [State.follow, State.moved, Token.moved]
    rw [hdeclaration]
    exact resultMoved_map (fun r => by cases r <;> rfl) _
  | operand slot =>
    dsimp only [State.follow, State.moved, Token.moved]
    rw [hoperand]
    exact resultMoved_map (fun r => by cases r <;> rfl) _
  | name role next =>
    dsimp only [State.follow, State.moved, Token.moved]
    cases asName l <;> rfl
  | value next =>
    dsimp only [State.follow, State.moved, Token.moved]
    cases asValue l <;> rfl
  | typed | declared | built | defined | field | arm => rfl
  | _ =>
    -- the other foci look at the lexeme alone
    dsimp only [State.follow, State.moved, Token.moved]
    split_ifs <;> first | rfl | (cases asName l <;> rfl) | (cases asValue l <;> rfl)

theorem step_moved (tok : Token) :
    (st.moved done f).step (tok.moved f) = resultMoved f (State.moved done f) (st.step tok) := by
  have hkept : (if keeps st.focus tok.lexeme then Except.ok (st.moved done f) else (st.moved done f).release) =
      resultMoved f (State.moved done f) (if keeps st.focus tok.lexeme then .ok st else st.release) := by
    split_ifs
    · rfl
    · exact release_moved done f st
  rw [step_eq, step_eq]
  change Except.bind (if keeps st.focus tok.lexeme then _ else _) _ = _
  rw [hkept]
  refine resultMoved_bind (fun s => ?_) _
  rw [follow_moved]
  refine resultMoved_bind (fun r => ?_) _
  cases r with
  | none => rfl
  | some r => exact enter_moved done f r.1 r.2

/-! ## All tokens -/

theorem run_moved (toks : List Token) :
    (st.moved done f).run (toks.map (Token.moved f)) = resultMoved f (State.moved done f) (st.run toks) := by
  induction toks generalizing st with
  | nil => rfl
  | cons tok toks ih =>
    rw [List.map_cons, run_cons, run_cons, step_moved]
    exact resultMoved_bind ih _

theorem finish_moved :
    (st.moved done f).finish = resultMoved f (done.toList ++ ·) st.finish := by
  change (st.moved done f).release.bind _ = resultMoved f _ (st.release.bind _)
  rw [release_moved]
  refine resultMoved_bind (fun s => ?_) _
  obtain ⟨ds, frames, focus⟩ := s
  cases focus with
  | definition => exact congrArg Except.ok Array.toList_append
  | _ => rfl

/-- the same tokens at other positions make up the same definitions, and have the same faults there -/
theorem parse_moved (toks : List Token) : parse (toks.map (Token.moved f)) = resultMoved f id (parse toks) := by
  have hstart : State.start.moved #[] f = State.start := rfl
  change (State.start.run _).bind State.finish = resultMoved f id ((State.start.run toks).bind State.finish)
  rw [← hstart, run_moved]
  exact resultMoved_bind (finish_moved #[] f) _

/-- **The definitions of tokens are those of their lexemes**, wherever the tokens stand. -/
theorem parse_eq_ok_of_lexemes_eq {toks toks' : List Token} {ds : List Definition}
    (h : toks'.map Token.lexeme = toks.map Token.lexeme) (hparse : parse toks = .ok ds) : parse toks' = .ok ds := by
  -- both are the same tokens once all stand at one place
  have hmoved : ∀ toks : List Token, toks.map (Token.moved fun _ => ⟨1, 1⟩) =
      (toks.map Token.lexeme).map fun l => ⟨l, ⟨1, 1⟩⟩ := by
    intro toks
    rw [List.map_map]
    rfl
  have hsame := parse_moved (fun _ => ⟨1, 1⟩) toks
  rw [hmoved, ← h, ← hmoved, parse_moved, hparse] at hsame
  cases hparse' : parse toks' with
  | error e =>
    rw [hparse'] at hsame
    cases hsame
  | ok ds' =>
    rw [hparse'] at hsame
    exact hsame

end Grammar

end Xdr
