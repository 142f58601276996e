/-
The tokens of definitions, one block for each.

A focus is inside of a definition when it is left for another definition only by way of one that is done. Every token
either goes on with a definition or ends it, so the tokens that are read fall into blocks, and every definition takes a
token at least.
- `step_cases`: what one token does to the definitions that are done.
- `run_grows`: a run that comes back to where a definition may begin has read one, if it has read anything.
- `exists_blocks_of_run`: what a run has read, as blocks of definitions and the tokens of one that is not done.
- `parse_blocks`: blocks one after another make up their definitions.
- `Blocks.isPrefix`: where a block ends is settled by the tokens, so there is one way to cut a text into blocks.
-/
import Mathlib.Data.List.Forall2
import Mathlib.Data.List.Induction
import Xdr.Proofs.Grammar.Concat

namespace Xdr.Grammar

open State

variable {st st' st₁ : State} {f : Focus} {tok : Token} {toks : List Token} {ds : List Definition}

/-! ## Inside of a definition -/

/-- leads to another definition only by way of one that is done -/
def Focus.Inside : Focus → Prop
  | .punct _ next => next.Inside
  | .keyword _ next => next.Inside
  | .name _ next => ∀ s, (next s).Inside
  | .value next => ∀ v, (next v).Inside
  | .definition => False
  | _ => True

/-- between definitions, or inside of one -/
def State.Sound (st : State) : Prop := st.focus = .definition ∨ st.focus.Inside

/-- the definition goes on -/
def GoesOn (st st' : State) : Prop := st'.done = st.done ∧ st'.focus.Inside

/-- a definition is done -/
def Completes (st st' : State) : Prop := (∃ d, st'.done = st.done.push d) ∧ st'.focus = .definition

theorem slotFocus_inside (name : String) (slot : Slot) : (slotFocus name slot).Inside := by
  cases slot with
  | result v => exact fun _ => trivial
  | argument v result id args => trivial

theorem typed_goesOn {t : TypeSpec} (h : st.typed t = .ok st') : GoesOn st st' := by
  obtain ⟨done, frames, focus⟩ := st
  rcases frames with _ | ⟨fr, frames⟩
  · cases h
    exact ⟨rfl, trivial⟩
  · cases fr with
    | operand start slot =>
      cases t with
      | named n =>
        cases h
        exact ⟨rfl, slotFocus_inside n slot⟩
      | body d => cases h
    | _ =>
      cases h
      exact ⟨rfl, trivial⟩

theorem declared_goesOn {d : Decl} (hst : st.focus.Inside) (h : st.declared d = .ok st') : GoesOn st st' := by
  obtain ⟨done, frames, focus⟩ := st
  rcases frames with _ | ⟨fr, frames⟩
  · cases h
    exact ⟨rfl, hst⟩
  · cases fr with
    | «alias» keyword =>
      simp only [declared] at h
      split_ifs at h
      cases h
      exact ⟨rfl, trivial⟩
    | discriminant id start =>
      simp only [declared] at h
      split_ifs at h
      cases h
      exact ⟨rfl, trivial⟩
    | field id fields =>
      cases h
      exact ⟨rfl, trivial⟩
    | arm u cases isDefault =>
      cases h
      exact ⟨rfl, trivial⟩
    | operand start slot => cases h

theorem built_goesOn {d : Definition} (h : st.built d = .ok st') : GoesOn st st' := by
  unfold built at h
  split_ifs at h
  · cases h
    exact ⟨rfl, trivial⟩
  · exact typed_goesOn h

/-- what is entered goes on with the definition, unless the definition is done -/
theorem enter_goesOn (hst : st.focus.Inside) (hf : f.Inside) (hd : ∀ d, f ≠ .defined d) (h : st.enter f = .ok st') :
    GoesOn st st' := by
  cases f with
  | typed t => exact typed_goesOn h
  | declared d => exact declared_goesOn hst h
  | built d => exact built_goesOn h
  | defined d => exact absurd rfl (hd d)
  | _ =>
    cases h
    exact ⟨rfl, hf⟩

theorem release_goesOn (hst : st.focus.Inside) (h : st.release = .ok st') : GoesOn st st' := by
  obtain ⟨done, frames, focus⟩ := st
  cases focus with
  | unsigned => exact enter_goesOn (f := .typed (.named Primitive.unsignedInt.idlName)) hst trivial (fun _ => nofun) h
  | suffix d => exact enter_goesOn (f := .declared d) hst trivial (fun _ => nofun) h
  | fieldNext id fields => exact enter_goesOn (f := .field id fields) hst trivial (fun _ => nofun) h
  | caseNext u cases => exact enter_goesOn (f := .arm u cases false) hst trivial (fun _ => nofun) h
  | procedureNext v => exact enter_goesOn (f := .operand (.result v)) hst trivial (fun _ => nofun) h
  | versionNext p => exact enter_goesOn (f := versionFocus p) hst (fun _ => trivial) (fun _ => nofun) h
  | _ =>
    cases h
    exact ⟨rfl, hst⟩

/-! ## One token -/

theorem TypeStart.inside {l : Lexeme} (h : TypeStart l f) : f.Inside := by
  cases h <;> trivial

theorem DeclarationStart.inside {l : Lexeme} (h : DeclarationStart l f) : f.Inside := by
  cases h with
  | void => trivial
  | bytes | string => exact fun _ => trivial
  | type h => exact h.inside

theorem operandFocus_inside (h : operandFocus tok = .ok (some f)) : f.Inside := by
  rcases operandFocus_cases h with rfl | h
  · trivial
  · exact h.inside

/-- the frame that is put on with a token -/
def Frame.BeginsAt (tok : Token) : Frame → Prop
  | .alias keyword => keyword = tok
  | .discriminant _ start => start = tok.pos
  | .operand start _ => start = tok.pos
  | _ => True

/-- a way on with a token: nothing is done yet, every frame was there or begins with the token, and inside of a
definition the way leads on inside of it -/
structure LeadsOn (tok : Token) (s st₁ : State) (f : Focus) : Prop where
  done : st₁.done = s.done
  focus : st₁.focus = s.focus
  frames : ∀ fr ∈ st₁.frames, fr ∈ s.frames ∨ fr.BeginsAt tok
  inside : s.focus.Inside → f.Inside

theorem LeadsOn.stay {s : State} (hf : s.focus.Inside → f.Inside) : LeadsOn tok s s f :=
  ⟨rfl, rfl, fun _ => .inl, hf⟩

/-- a frame that begins with the token is put on -/
theorem LeadsOn.push {s : State} {fr : Frame} (hfr : fr.BeginsAt tok) (hf : f.Inside) :
    LeadsOn tok s { s with frames := fr :: s.frames } f := by
  refine ⟨rfl, rfl, fun fr' hfr' => ?_, fun _ => hf⟩
  rcases List.mem_cons.1 hfr' with rfl | hmem
  · exact .inr hfr
  · exact .inl hmem

theorem frames_of_definitionFocus {r : List Frame × Focus} (h : definitionFocus tok = some r) :
    ∀ fr ∈ r.1, fr.BeginsAt tok := by
  unfold definitionFocus at h
  split at h
  case h_2 =>
    cases h
    exact List.forall_mem_singleton.2 rfl
  case h_7 => cases h
  all_goals
    cases h
    exact List.forall_mem_nil _

/-- every way on leads on -/
theorem follow_leadsOn (h : st.follow tok = .ok (some (st₁, f))) : LeadsOn tok st st₁ f := by
  obtain ⟨done, frames, focus⟩ := st
  have hgo : ∀ {g : Focus}, g.Inside → LeadsOn tok ⟨done, frames, focus⟩ ⟨done, frames, focus⟩ g := fun hg =>
    .stay fun _ => hg
  cases focus with
  | definition =>
    obtain ⟨r, hr, heq⟩ := Option.map_eq_some_iff.1 (Except.ok.inj h)
    cases heq
    exact ⟨rfl, rfl, fun fr hfr => .inr (frames_of_definitionFocus hr fr hfr), False.elim⟩
  | punct p next => exact of_follow_if h (fun _ => .stay id) of_follow_refuse
  | keyword w next => exact of_follow_if h (fun _ => .stay id) of_follow_refuse
  | name role next => exact of_follow_map h fun n _ => .stay fun hst => hst n
  | value next => exact of_follow_map h fun v _ => .stay fun hst => hst v
  | declaration => exact of_follow_focus h fun g hg => hgo (declarationFocus_cases hg).inside
  | discriminant id => exact of_follow_focus h fun g hg => .push rfl (declarationFocus_cases hg).inside
  | operand slot => exact of_follow_focus h fun g hg => .push rfl (operandFocus_inside hg)
  | tagNext id tags =>
    refine of_follow_if h (fun _ => hgo fun _ _ => trivial) fun h => ?_
    exact of_follow_if h (fun _ => hgo trivial) of_follow_refuse
  | armNext u =>
    refine of_follow_if h (fun _ => hgo trivial) fun h => ?_
    refine of_follow_if h (fun _ => hgo fun _ => trivial) fun h => ?_
    exact of_follow_if h (fun _ => hgo trivial) of_follow_refuse
  | enumType =>
    refine of_follow_if h (fun _ => hgo fun _ _ => trivial) fun h => ?_
    exact of_follow_map h fun _ _ => hgo trivial
  | structType | unionType | limit =>
    refine of_follow_if h (fun _ => hgo trivial) fun h => ?_
    exact of_follow_map h fun _ _ => hgo trivial
  | declarator t =>
    refine of_follow_if h (fun _ => hgo fun _ => trivial) fun h => ?_
    exact of_follow_map h fun _ _ => hgo trivial
  | opaqueSuffix id | suffix d =>
    refine of_follow_if h (fun _ => hgo fun _ => trivial) fun h => ?_
    exact of_follow_if h (fun _ => hgo trivial) of_follow_refuse
  | argumentNext v result id args =>
    refine of_follow_if h (fun _ => hgo trivial) fun h => ?_
    exact of_follow_if h (fun _ => hgo fun _ => trivial) of_follow_refuse
  | unsigned =>
    refine of_follow_if h (fun _ => hgo trivial) fun h => ?_
    exact of_follow_if h (fun _ => hgo trivial) of_follow_refuse
  | fieldNext id fields => exact of_follow_if h (fun _ => hgo trivial) of_follow_refuse
  | caseNext | procedureNext | versionNext => exact of_follow_if h (fun _ => hgo fun _ => trivial) of_follow_refuse
  | typed | declared | built | defined | field | arm => cases h

/-- a definition's keyword begins it -/
theorem enter_definitionFocus {r : List Frame × Focus} (h : definitionFocus tok = some r) :
    r.2.Inside ∧ ∀ s : State, s.enter r.2 = .ok { s with focus := r.2 } := by
  unfold definitionFocus at h
  split at h
  case h_7 => cases h
  all_goals
    cases h
    refine ⟨?_, fun s => rfl⟩
    simp [Focus.Inside, tagFocus, versionFocus]

/-- a token that is taken is followed from the state that keeps it, or from the one that it is given up to -/
theorem exists_of_step (h : st.step tok = .ok st') : ∃ s s₁ f,
    (if keeps st.focus tok.lexeme then .ok st else st.release) = .ok s ∧ s.follow tok = .ok (some (s₁, f)) ∧
      s₁.enter f = .ok st' := by
  rw [step_eq] at h
  obtain ⟨s, hs, h⟩ := of_bind_eq_ok h
  obtain ⟨r, hfollow, h⟩ := of_bind_eq_ok h
  rcases r with _ | ⟨s₁, f⟩
  · cases h
  · exact ⟨s, s₁, f, hs, hfollow, h⟩

/-- what one token does to the definitions that are done -/
theorem step_cases (hst : st.Sound) (h : st.step tok = .ok st') : GoesOn st st' ∨ Completes st st' := by
  obtain ⟨s, s₁, f, hs, hfollow, h⟩ := exists_of_step h
  have hleads := follow_leadsOn hfollow
  rcases hst with hfocus | hst
  · obtain ⟨done, frames, focus⟩ := st
    obtain rfl : focus = .definition := hfocus
    cases hs
    obtain ⟨r, hr, heq⟩ := Option.map_eq_some_iff.1 (Except.ok.inj hfollow)
    cases heq
    obtain ⟨hinside, henter⟩ := enter_definitionFocus hr
    cases (henter _).symm.trans h
    exact .inl ⟨rfl, hinside⟩
  · have hgoes : GoesOn st s := by
      split_ifs at hs
      · cases hs
        exact ⟨rfl, hst⟩
      · exact release_goesOn hst hs
    obtain ⟨hdone, hinside⟩ := hgoes
    have hdone₁ : s₁.done = st.done := hleads.done.trans hdone
    have hinside₁ : s₁.focus.Inside := hleads.focus ▸ hinside
    by_cases hdefined : ∃ d, f = .defined d
    · obtain ⟨d, rfl⟩ := hdefined
      cases h
      exact .inr ⟨⟨d, congrArg (Array.push · d) hdone₁⟩, rfl⟩
    · obtain ⟨hdone₂, hinside₂⟩ :=
        enter_goesOn hinside₁ (hleads.inside hinside) (fun d hd => hdefined ⟨d, hd⟩) h
      exact .inl ⟨hdone₂.trans hdone₁, hinside₂⟩

theorem not_inside_definition {f : Focus} (h : f.Inside) : f ≠ .definition := by
  rintro rfl
  exact h

/-! ## All tokens -/

/-- the definitions that are done only grow, and a run that comes back to where a definition may begin has read one -/
theorem run_grows (hst : st.Sound) (h : st.run toks = .ok st') :
    st.done.size ≤ st'.done.size ∧ (toks ≠ [] → st'.focus = .definition → st.done.size < st'.done.size) := by
  induction toks generalizing st with
  | nil =>
    cases h
    exact ⟨Nat.le_refl _, fun hne => absurd rfl hne⟩
  | cons tok toks ih =>
    rw [run_cons] at h
    obtain ⟨s, hstep, h⟩ := of_bind_eq_ok h
    rcases step_cases hst hstep with ⟨hdone, hs⟩ | ⟨⟨d, hdone⟩, hs⟩
    · obtain ⟨hle, hlt⟩ := ih (.inr hs) h
      rw [hdone] at hle hlt
      refine ⟨hle, fun _ hfocus => hlt ?_ hfocus⟩
      -- inside of a definition no other may begin, so there is more to read
      rintro rfl
      cases h
      exact not_inside_definition hs hfocus
    · obtain ⟨hle, -⟩ := ih (.inl hs) h
      have hsize : s.done.size = st.done.size + 1 := by rw [hdone, Array.size_push]
      exact ⟨by omega, fun _ _ => by omega⟩

/-! ## Behind other definitions -/

/-- the same state behind definitions that are done -/
def State.after (done : Array Definition) (st : State) : State := ⟨done ++ st.done, st.frames, st.focus⟩

theorem Frame.moved_id : Frame.moved id = id := by
  funext fr
  cases fr <;> rfl

theorem resultMoved_id {α : Type} (g : α → α) (x : Except SourceError α) : resultMoved id g x = x.map g := by
  cases x with
  | ok a => rfl
  | error e => cases e <;> rfl

theorem step_after (done : Array Definition) (st : State) (tok : Token) :
    (st.after done).step tok = (st.step tok).map (State.after done) := by
  have hafter : State.moved done id = State.after done := by
    funext st
    rw [State.moved, Frame.moved_id, List.map_id]
    rfl
  have hmoved := step_moved done id st tok
  rwa [hafter, resultMoved_id] at hmoved

/-- each block makes up its own definition -/
def Blocks (blocks : List (List Token)) (ds : List Definition) : Prop :=
  List.Forall₂ (fun block d => block ≠ [] ∧ parse block = .ok [d]) blocks ds

/-- what a run has read: a block for every definition, and behind them the tokens of one that is not done -/
structure ReadsBlocks (toks : List Token) (st : State) (blocks : List (List Token)) (rest : List Token) : Prop where
  tokens : toks = blocks.flatten ++ rest
  blocks : Blocks blocks st.done.toList
  rest : (rest = [] ∧ st.focus = .definition) ∨
    (rest ≠ [] ∧ st.focus.Inside ∧ State.start.run rest = .ok { st with done := #[] })

theorem run_concat (st : State) (toks : List Token) (tok : Token) :
    st.run (toks ++ [tok]) = (st.run toks).bind fun s => s.step tok := by
  rw [run_append]
  congr
  funext s
  rw [run_cons]
  cases s.step tok <;> rfl

/-- one more token goes on with the tokens of a definition that is not done, or makes them a block -/
theorem ReadsBlocks.step {blocks : List (List Token)} {rest : List Token} (h : ReadsBlocks toks st blocks rest)
    (hstep : st.step tok = .ok st') : ∃ blocks' rest', ReadsBlocks (toks ++ [tok]) st' blocks' rest' := by
  -- the same from a state where nothing is done
  obtain ⟨s, hrun, hsound, hdone, hafter⟩ : ∃ s : State, State.start.run rest = .ok s ∧ s.Sound ∧ s.done = #[] ∧
      st.step tok = (s.after st.done).step tok := by
    rcases h.rest with ⟨rfl, hfocus⟩ | ⟨-, hinside, hrun⟩
    · obtain ⟨done, frames, focus⟩ := st
      obtain rfl : focus = .definition := hfocus
      exact ⟨State.start, rfl, .inl rfl, rfl, step_definition done frames tok⟩
    · exact ⟨_, hrun, .inr hinside, rfl, rfl⟩
  rw [hafter, step_after] at hstep
  obtain ⟨s', hs', rfl⟩ : ∃ s', s.step tok = .ok s' ∧ s'.after st.done = st' := by
    cases hs' : s.step tok with
    | error e => rw [hs'] at hstep; cases hstep
    | ok s' =>
      rw [hs'] at hstep
      exact ⟨s', rfl, Except.ok.inj hstep⟩
  have hrun' : State.start.run (rest ++ [tok]) = .ok s' := by
    rw [run_concat, hrun]
    exact hs'
  rcases step_cases hsound hs' with ⟨hgoes, hinside⟩ | ⟨⟨d, hd⟩, hfocus⟩
  · have hnil : s'.done = #[] := hgoes.trans hdone
    refine ⟨blocks, rest ++ [tok], ?_, ?_, .inr ⟨by simp, hinside, ?_⟩⟩
    · rw [h.tokens, List.append_assoc]
    · rw [State.after, hnil, Array.append_empty]
      exact h.blocks
    · rw [hrun', State.after, ← hnil]
  · have hparse : parse (rest ++ [tok]) = .ok [d] := parse_eq_ok_iff.2 ⟨s', hrun', hfocus, by rw [hd, hdone]; rfl⟩
    refine ⟨blocks ++ [rest ++ [tok]], [], ?_, ?_, .inl ⟨rfl, hfocus⟩⟩
    · rw [h.tokens]
      simp
    · have hlist : (s'.after st.done).done.toList = st.done.toList ++ [d] := by
        rw [State.after, hd, hdone]
        simp
      rw [hlist]
      exact List.rel_append h.blocks (.cons ⟨by simp, hparse⟩ .nil)

/-- **What has been read falls into blocks**, one for each definition. -/
theorem exists_blocks_of_run (h : State.start.run toks = .ok st) : ∃ blocks rest, ReadsBlocks toks st blocks rest := by
  induction toks using List.reverseRecOn generalizing st with
  | nil =>
    cases h
    exact ⟨[], [], rfl, .nil, .inl ⟨rfl, rfl⟩⟩
  | append_singleton toks tok ih =>
    rw [run_concat] at h
    obtain ⟨s, hs, hstep⟩ := of_bind_eq_ok h
    obtain ⟨blocks, rest, hread⟩ := ih hs
    exact hread.step hstep

/-- blocks one after another make up their definitions -/
theorem parse_blocks {blocks : List (List Token)} (h : Blocks blocks ds) : parse blocks.flatten = .ok ds := by
  induction h with
  | nil => rfl
  | cons hblock _ ih =>
    have hzero : Token.down 0 = id := rfl
    have happend := parse_append hblock.2 ih 0
    rwa [hzero, List.map_id] at happend

/-! ## Blocks are not cut in another way -/

/-- tokens that go on after a whole text make up another definition -/
theorem eq_of_prefix_of_parse {ts us : List Token} {es : List Definition} (hts : parse ts = .ok ds)
    (hus : parse us = .ok es) (hpre : ts <+: us) (hlen : es.length ≤ ds.length) : ts = us := by
  obtain ⟨rest, rfl⟩ := hpre
  obtain ⟨st, hrun, hfocus, rfl⟩ := parse_eq_ok_iff.1 hts
  obtain ⟨st', hrun', hfocus', rfl⟩ := parse_eq_ok_iff.1 hus
  rw [run_append, hrun] at hrun'
  obtain ⟨-, hgrows⟩ := run_grows (.inl hfocus) hrun'
  rw [Array.length_toList, Array.length_toList] at hlen
  by_contra hne
  have hrest : rest ≠ [] := by
    rintro rfl
    exact hne (List.append_nil _).symm
  exact absurd (hgrows hrest hfocus') (Nat.not_lt.2 hlen)

/-- where the blocks end is settled by the tokens -/
theorem Blocks.isPrefix {blocks blocks' : List (List Token)} {es : List Definition} (h : Blocks blocks ds)
    (h' : Blocks blocks' es) (hpre : blocks'.flatten <+: blocks.flatten) : blocks' <+: blocks := by
  induction h' generalizing blocks ds with
  | nil => exact List.nil_prefix
  | @cons block' e blocks' es hblock' _ ih =>
    cases h with
    | nil =>
      rw [List.flatten_nil, List.prefix_nil, List.flatten_cons, List.append_eq_nil_iff] at hpre
      exact absurd hpre.1 hblock'.1
    | @cons block d blocks ds hblock hblocks =>
      rw [List.flatten_cons, List.flatten_cons] at hpre
      have heq : block' = block := by
        rcases List.prefix_or_prefix_of_prefix ((List.prefix_append _ _).trans hpre) (List.prefix_append block _)
          with hle | hle
        · exact eq_of_prefix_of_parse hblock'.2 hblock.2 hle (Nat.le_refl 1)
        · exact (eq_of_prefix_of_parse hblock.2 hblock'.2 hle (Nat.le_refl 1)).symm
      subst heq
      exact List.cons_prefix_cons.2 ⟨rfl, ih hblocks ((List.prefix_append_right_inj _).1 hpre)⟩

/-- a whole text is all blocks -/
theorem exists_blocks_of_parse (h : parse toks = .ok ds) : ∃ blocks, toks = blocks.flatten ∧ Blocks blocks ds := by
  obtain ⟨st, hrun, hfocus, rfl⟩ := parse_eq_ok_iff.1 h
  obtain ⟨blocks, rest, hread⟩ := exists_blocks_of_run hrun
  rcases hread.rest with ⟨rfl, -⟩ | ⟨-, hinside, -⟩
  · exact ⟨blocks, by rw [hread.tokens, List.append_nil], hread.blocks⟩
  · exact absurd hfocus (not_inside_definition hinside)

end Xdr.Grammar
