/-
Texts that are cut short.

Where some tokens lead from a state to where the text may end, the state has no fault of its own, so that the end of the
tokens is all that can be wrong with it.
- `State.Ends.release`: an optional continuation can be given up where the text can be completed.
- `State.Ends.finish`: between definitions the text may be cut, and anywhere else it is truncated.
- `parse_cut`: cut behind a definition, a text has the definitions up to there, and cut anywhere else it is truncated.
-/
import Xdr.Proofs.Grammar.Blocks

namespace Xdr.Grammar

open State

variable {st st' : State} {done : Array Definition} {frames : List Frame} {f₀ f₁ next : Focus} {p : Punct} {d : Decl}

/-! ## States that can be completed -/

/-- some tokens lead to where the text may end -/
def State.Ends (st : State) : Prop := ∃ toks st', st.run toks = .ok st' ∧ st'.focus = .definition

/-- a focus that does not give the token up goes on with it -/
theorem exists_follow_of_step {tok : Token} (hk : keeps st.focus tok.lexeme = true) (h : st.step tok = .ok st') :
    ∃ s f, st.follow tok = .ok (some (s, f)) ∧ s.enter f = .ok st' := by
  obtain ⟨s₀, s, f, hs, hfollow, henter⟩ := exists_of_step h
  rw [if_pos hk] at hs
  cases hs
  exact ⟨s, f, hfollow, henter⟩

/-- elsewhere than between definitions there is a token to take -/
theorem State.Ends.step (h : st.Ends) (hfocus : st.focus ≠ .definition) :
    ∃ tok st', st.step tok = .ok st' ∧ st'.Ends := by
  obtain ⟨toks, st', hrun, hend⟩ := h
  cases toks with
  | nil =>
    cases hrun
    exact absurd hend hfocus
  | cons tok toks =>
    rw [run_cons] at hrun
    obtain ⟨s, hstep, hrun⟩ := of_bind_eq_ok hrun
    exact ⟨tok, s, hstep, toks, st', hrun, hend⟩

theorem State.Ends.punct (h : State.Ends ⟨done, frames, .punct p next⟩) :
    ∃ st', State.enter ⟨done, frames, .punct p next⟩ next = .ok st' := by
  obtain ⟨tok, st', hstep, -⟩ := h.step nofun
  obtain ⟨s, f, hfollow, henter⟩ := exists_follow_of_step rfl hstep
  simp only [follow] at hfollow
  split_ifs at hfollow
  · cases hfollow
    exact ⟨st', henter⟩
  · cases hfollow

theorem State.Ends.value {next : String → Focus} (h : State.Ends ⟨done, frames, .value next⟩) :
    ∃ v st', State.enter ⟨done, frames, .value next⟩ (next v) = .ok st' ∧ st'.Ends := by
  obtain ⟨tok, st', hstep, hends⟩ := h.step nofun
  obtain ⟨s, f, hfollow, henter⟩ := exists_follow_of_step rfl hstep
  obtain ⟨v, -, hv⟩ := Option.map_eq_some_iff.1 (Except.ok.inj hfollow)
  cases hv
  exact ⟨v, st', henter, hends⟩

theorem State.Ends.limit (h : State.Ends ⟨done, frames, .limit d⟩) :
    ∃ b f₀ st', State.declared ⟨done, frames, f₀⟩ { d with bound := b } = .ok st' := by
  obtain ⟨tok, st', hstep, hends⟩ := h.step nofun
  obtain ⟨s, f, hfollow, henter⟩ := exists_follow_of_step rfl hstep
  simp only [follow] at hfollow
  split_ifs at hfollow
  · cases hfollow
    cases d
    exact ⟨_, _, st', henter⟩
  · obtain ⟨v, -, hv⟩ := Option.map_eq_some_iff.1 (Except.ok.inj hfollow)
    cases hv
    cases henter
    obtain ⟨st₁, hdeclared⟩ := hends.punct
    exact ⟨v, _, st₁, hdeclared⟩

/-! ## Giving up an optional continuation -/

/-- what is declared with brackets is declared without them: a discriminant and the type of a procedure refuse them -/
theorem declared_of_qualified {q : Qualifier} {b : String} (hq : q ≠ .scalar)
    (h : State.declared ⟨done, frames, f₀⟩ { d with qualifier := q, bound := b } = .ok st') :
    ∃ st₁, State.declared ⟨done, frames, f₁⟩ d = .ok st₁ := by
  rcases frames with _ | ⟨fr, frames⟩
  · exact ⟨_, rfl⟩
  · cases fr with
    | «alias» keyword =>
      simp only [declared] at h ⊢
      split_ifs at h with hvoid
      exact ⟨_, if_neg hvoid⟩
    | field id fields => exact ⟨_, rfl⟩
    | discriminant id start =>
      simp only [declared] at h
      split_ifs at h with hplain
      simp only [isDiscriminant, Bool.and_eq_true, beq_iff_eq] at hplain
      exact absurd hplain.2 hq
    | arm u cases isDefault => exact ⟨_, rfl⟩
    | operand start slot => cases h

/-- brackets behind a name lead to the declaration that has them -/
theorem exists_qualified_of_step {tok : Token} (hk : keeps (.suffix d) tok.lexeme = true)
    (hstep : State.step ⟨done, frames, .suffix d⟩ tok = .ok st') (hends : st'.Ends) : ∃ q b f₀ st₁,
      q ≠ .scalar ∧ State.declared ⟨done, frames, f₀⟩ { d with qualifier := q, bound := b } = .ok st₁ := by
  obtain ⟨s, f, hfollow, henter⟩ := exists_follow_of_step hk hstep
  simp only [follow] at hfollow
  split_ifs at hfollow
  · cases hfollow
    cases henter
    obtain ⟨v, s, hs, hends⟩ := hends.value
    cases hs
    obtain ⟨st₁, hdeclared⟩ := hends.punct
    exact ⟨.array, v, _, st₁, nofun, hdeclared⟩
  · cases hfollow
    cases henter
    obtain ⟨b, f₁, st₁, hdeclared⟩ := hends.limit
    exact ⟨.vec, b, f₁, st₁, nofun, hdeclared⟩
  · cases hfollow

/-- an optional continuation can be given up where the text can be completed -/
theorem State.Ends.release (h : st.Ends) : ∃ st₁, st.release = .ok st₁ := by
  obtain ⟨done, frames, focus⟩ := st
  cases focus with
  | suffix d =>
    obtain ⟨tok, st', hstep, hends⟩ := h.step nofun
    by_cases hk : keeps (.suffix d) tok.lexeme = true
    · obtain ⟨q, b, f₀, st₁, hq, hdeclared⟩ := exists_qualified_of_step hk hstep hends
      exact declared_of_qualified hq hdeclared
    · rw [step_eq, if_neg hk] at hstep
      obtain ⟨st₁, hrelease, -⟩ := of_bind_eq_ok hstep
      exact ⟨st₁, hrelease⟩
  | unsigned =>
    rcases frames with _ | ⟨fr, frames⟩
    · exact ⟨_, rfl⟩
    · cases fr <;> exact ⟨_, rfl⟩
  | _ => exact ⟨_, rfl⟩

/-! ## The cut -/

/-- between definitions the text may be cut, and anywhere else it is truncated -/
theorem State.Ends.finish (h : st.Ends) (hfocus : st.focus ≠ .definition) :
    ∃ e, st.finish = .error (.truncated e) := by
  obtain ⟨st₁, hrelease⟩ := h.release
  exact ⟨_, finish_of_release hrelease fun hfocus₁ => hfocus (focus_of_release hrelease hfocus₁)⟩

/-- **A text that is cut short is a text or truncated**: behind a definition it has the definitions up to there, and cut
anywhere else it is truncated. No fault is found, and no other definition read, for what is missing. -/
theorem parse_cut {toks : List Token} {ds : List Definition} (h : parse toks = .ok ds) :
    ∃ blocks, toks = blocks.flatten ∧ Blocks blocks ds ∧ ∀ ts, ts <+: toks →
      (∃ k ≤ ds.length, ts = (blocks.take k).flatten ∧ parse ts = .ok (ds.take k)) ∨
      ((∀ k, ts ≠ (blocks.take k).flatten) ∧ ∃ e, parse ts = .error (.truncated e)) := by
  obtain ⟨blocks, rfl, hblocks⟩ := exists_blocks_of_parse h
  refine ⟨blocks, rfl, hblocks, ?_⟩
  rintro ts ⟨rest, hcut⟩
  have htake : ∀ k, parse (blocks.take k).flatten = .ok (ds.take k) := fun k =>
    parse_blocks (List.forall₂_take k hblocks)
  obtain ⟨st', hrun', hfocus', -⟩ := parse_eq_ok_iff.1 h
  rw [← hcut, run_append] at hrun'
  obtain ⟨st, hrun, hrest⟩ := of_bind_eq_ok hrun'
  by_cases hfocus : st.focus = .definition
  · left
    have hts : parse ts = .ok st.done.toList := parse_eq_ok_iff.2 ⟨st, hrun, hfocus, rfl⟩
    obtain ⟨blocks', rfl, hblocks'⟩ := exists_blocks_of_parse hts
    have hpre : blocks' <+: blocks := hblocks.isPrefix hblocks' ⟨rest, hcut⟩
    have heq : blocks' = blocks.take blocks'.length := List.prefix_iff_eq_take.1 hpre
    refine ⟨blocks'.length, ?_, congrArg List.flatten heq, ?_⟩
    · rw [← hblocks.length_eq]
      exact hpre.length_le
    · have hparse := htake blocks'.length
      rwa [← heq] at hparse
  · right
    constructor
    · rintro k rfl
      obtain ⟨s, hs, hsfocus, -⟩ := parse_eq_ok_iff.1 (htake k)
      cases hs.symm.trans hrun
      exact hfocus hsfocus
    · obtain ⟨e, he⟩ := State.Ends.finish ⟨rest, st', hrest, hfocus'⟩ hfocus
      exact ⟨e, (parse_of_run hrun).trans he⟩

/-- an alias, and a constant on the next line -/
def limitTokens : List Token :=
  [⟨.word "typedef", ⟨1, 1⟩⟩, ⟨.word "int", ⟨1, 9⟩⟩, ⟨.word "count", ⟨1, 13⟩⟩, ⟨.punct .semicolon, ⟨1, 18⟩⟩,
    ⟨.word "const", ⟨2, 1⟩⟩, ⟨.word "LIMIT", ⟨2, 7⟩⟩, ⟨.punct .equals, ⟨2, 13⟩⟩, ⟨.number "4", ⟨2, 15⟩⟩,
    ⟨.punct .semicolon, ⟨2, 16⟩⟩]

def limitDefinitions : List Definition := [.typedef { id := "count", typeName := "int" }, .const "LIMIT" "4"]

theorem parse_cut_limit : parse limitTokens = .ok limitDefinitions ∧
    ∃ blocks, limitTokens = blocks.flatten ∧ Blocks blocks limitDefinitions ∧ ∀ ts, ts <+: limitTokens →
      (∃ k ≤ limitDefinitions.length, ts = (blocks.take k).flatten ∧ parse ts = .ok (limitDefinitions.take k)) ∨
      ((∀ k, ts ≠ (blocks.take k).flatten) ∧ ∃ e, parse ts = .error (.truncated e)) := by
  have hread : parse limitTokens = .ok limitDefinitions := rfl
  exact ⟨hread, parse_cut hread⟩

end Xdr.Grammar
