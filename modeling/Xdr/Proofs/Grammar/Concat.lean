/-
The grammar over tokens that follow one another.

A state that may end is one that waits for a definition, and nothing of what was read before bears on what it does next
but the definitions that are done.
- `finish_eq_ok_iff`: a text may end only behind the semicolon of a definition, or where nothing stands.
- `run_behind`: the same tokens further down, behind other definitions, do the same.
- `parse_append`: the definitions of tokens that follow one another are those of both.
-/
import Xdr.Proofs.Grammar.Positions
import Xdr.Proofs.Token.Concat

namespace Xdr

namespace Grammar

open State

/-! ## Further down -/

def Frame.down (k : Nat) : Frame → Frame
  | .alias keyword => .alias (keyword.down k)
  | .discriminant id start => .discriminant id (start.down k)
  | .operand start slot => .operand (start.down k) slot
  | fr => fr

/-- the same state `k` lines further down, when other definitions are done -/
def State.behind (done : Array Definition) (k : Nat) (st : State) : State :=
  ⟨done ++ st.done, st.frames.map (Frame.down k), st.focus⟩

theorem Frame.down_eq (k : Nat) (fr : Frame) : fr.down k = fr.moved (Position.down k) := by
  cases fr <;> rfl

theorem State.behind_eq (done : Array Definition) (k : Nat) : State.behind done k = .moved done (Position.down k) := by
  funext st
  have hframes : Frame.down k = Frame.moved (Position.down k) := funext (Frame.down_eq k)
  rw [State.behind, hframes]
  rfl

theorem resultDown_eq {α : Type} (k : Nat) (g : α → α) (x : Except SourceError α) :
    resultDown k g x = resultMoved (Position.down k) g x := by
  cases x with
  | ok a => rfl
  | error e => cases e <;> rfl

/-- the same tokens further down, behind other definitions, do the same -/
theorem run_behind (done : Array Definition) (k : Nat) (st : State) (toks : List Token) :
    (st.behind done k).run (toks.map (Token.down k)) = resultDown k (State.behind done k) (st.run toks) := by
  rw [resultDown_eq, State.behind_eq]
  exact run_moved done (Position.down k) st toks

/-! ## Texts that end -/

/-- a continuation that is given up leads to no new definition -/
theorem focus_of_release {st st' : State} (h : st.release = .ok st') (hfocus : st'.focus = .definition) :
    st.focus = .definition := by
  obtain ⟨done, frames, f⟩ := st
  cases f with
  | unsigned =>
    rcases frames with _ | ⟨fr, frames⟩
    · cases h
      cases hfocus
    · cases fr with
      | operand start slot => cases slot <;> cases h <;> cases hfocus
      | _ => cases h; cases hfocus
  | suffix d =>
    rcases frames with _ | ⟨fr, frames⟩
    · cases h
      cases hfocus
    · obtain ⟨p, next, hpunct⟩ := focus_of_enter_declared h
      rw [hpunct] at hfocus
      cases hfocus
  | _ =>
    cases h
    first | rfl | cases hfocus

/-- where something else is still to come, the end of the text is a fault -/
theorem finish_of_release {st st' : State} (h : st.release = .ok st') (hfocus : st'.focus ≠ .definition) :
    st.finish = .error (.truncated (State.expected st'.focus)) := by
  obtain ⟨done, frames, f⟩ := st'
  change st.release.bind _ = _
  rw [h]
  cases f with
  | definition => exact absurd rfl hfocus
  | _ => rfl

/-- **A text may end only where a definition may begin**: behind the semicolon of the last one. -/
theorem finish_eq_ok_iff {st : State} {ds : List Definition} :
    st.finish = .ok ds ↔ st.focus = .definition ∧ st.done.toList = ds := by
  constructor
  · intro h
    obtain ⟨st', hrelease, h⟩ := of_bind_eq_ok h
    have hfocus : st'.focus = .definition := by
      split at h
      · assumption
      · cases h
    have hst := focus_of_release hrelease hfocus
    obtain ⟨done, frames, f⟩ := st
    obtain rfl : f = .definition := hst
    cases hrelease
    exact ⟨rfl, Except.ok.inj h⟩
  · rintro ⟨hfocus, rfl⟩
    obtain ⟨done, frames, f⟩ := st
    obtain rfl : f = .definition := hfocus
    rfl

/-- where the tokens have led settles what they make up -/
theorem parse_of_run {toks : List Token} {st : State} (h : State.start.run toks = .ok st) : parse toks = st.finish := by
  change (State.start.run toks).bind State.finish = _
  rw [h]
  rfl

theorem parse_of_run_error {toks : List Token} {e : SourceError} (h : State.start.run toks = .error e) :
    parse toks = .error e := by
  change (State.start.run toks).bind State.finish = _
  rw [h]
  rfl

theorem parse_eq_ok_iff {toks : List Token} {ds : List Definition} : parse toks = .ok ds ↔
    ∃ st, State.start.run toks = .ok st ∧ st.focus = .definition ∧ st.done.toList = ds := by
  constructor
  · intro h
    obtain ⟨st, hrun, hfinish⟩ := of_bind_eq_ok h
    exact ⟨st, hrun, finish_eq_ok_iff.1 hfinish⟩
  · rintro ⟨st, hrun, hst⟩
    rw [parse_of_run hrun]
    exact finish_eq_ok_iff.2 hst

theorem run_append (st : State) (ts us : List Token) :
    st.run (ts ++ us) = (st.run ts).bind fun s => s.run us :=
  List.foldlM_append

/-- a definition begins with no frames, whatever is left of the one before -/
theorem step_definition (done : Array Definition) (frames : List Frame) (tok : Token) :
    State.step ⟨done, frames, .definition⟩ tok = State.step ⟨done, [], .definition⟩ tok := by
  have hstep : ∀ frames, State.step ⟨done, frames, .definition⟩ tok = match definitionFocus tok with
      | some r => State.enter ⟨done, r.1, .definition⟩ r.2
      | none => .error (.unexpected tok.pos .definition tok.lexeme) := by
    intro frames
    rw [step_eq]
    cases hfocus : definitionFocus tok <;> simp [keeps, State.follow, Except.bind, hfocus, expected]
  rw [hstep, hstep]

/-- **Tokens that follow one another make up the definitions of both**, at whatever lines the second stand. -/
theorem parse_append {ts us : List Token} {ds es : List Definition} (ht : parse ts = .ok ds) (hu : parse us = .ok es)
    (k : Nat) : parse (ts ++ us.map (Token.down k)) = .ok (ds ++ es) := by
  obtain ⟨⟨done, frames, f⟩, hrun, hfocus, rfl⟩ := parse_eq_ok_iff.1 ht
  obtain ⟨st, hrun', hfocus', rfl⟩ := parse_eq_ok_iff.1 hu
  obtain rfl : f = .definition := hfocus
  have hbehind : State.run ⟨done, [], .definition⟩ (us.map (Token.down k)) = .ok (st.behind done k) := by
    have hmoved := run_behind done k State.start us
    rwa [hrun'] at hmoved
  cases us with
  | nil =>
    cases hrun'
    exact parse_eq_ok_iff.2 ⟨_, by rwa [List.map_nil, List.append_nil], rfl, by simp [State.start]⟩
  | cons tok us =>
    rw [List.map_cons, run_cons, ← step_definition done frames, ← run_cons] at hbehind
    refine parse_eq_ok_iff.2 ⟨st.behind done k, ?_, hfocus', Array.toList_append⟩
    rw [run_append, hrun]
    exact hbehind

end Grammar

end Xdr
