/-
What may stand for the discriminant of a union.

A discriminant is read like any other declaration, and looked at when it is complete. A declaration that is not plain is
refused then, whatever has been read in between: its fields, arms and further unions included.
- `step_trapped`: a token leads from a declaration that is to be refused to nothing but the same.
- `Trapped.not_ends`: so no text with such a declaration is accepted.
- `exists_tagDeclaration`: what stands behind `switch (` in a text that is accepted.
-/
import Xdr.Proofs.Grammar.Truncation

namespace Xdr.Grammar

open State

variable {st st' s₁ : State} {done : Array Definition} {frames : List Frame} {f f₀ next : Focus} {tok : Token}
  {toks : List Token} {d : Decl} {id : String} {start : Position}

/-! ## Declarations that are to be refused -/

/-- the frame of a declaration inside of a body -/
def Frame.IsMember : Frame → Prop
  | .field .. | .discriminant .. | .arm .. => True
  | .alias _ | .operand .. => False

/-- leads to a declaration that is no discriminant. Within a member of its body (`deep`) any declaration does; else the
declaration itself is void, inline, or not scalar. -/
def Focus.Unfit (deep : Bool) : Focus → Prop
  | .punct _ next => next.Unfit deep
  | .keyword _ next => next.Unfit deep
  | .name _ next => ∀ s, (next s).Unfit deep
  | .value next => ∀ v, (next v).Unfit deep
  | .tagNext .. | .armNext _ | .discriminant _ | .fieldNext .. | .caseNext .. | .built _ | .field .. | .arm .. => True
  | .typed t | .declarator t => deep = true ∨ ∃ b, t = .body b
  | .suffix d | .declared d => deep = true ∨ isDiscriminant d = false
  | .limit d => deep = true ∨ ∀ bound, isDiscriminant { d with bound } = false
  | .opaqueSuffix _ => True
  | .declaration | .enumType | .structType | .unionType | .unsigned => deep = true
  | .definition | .operand _ | .argumentNext .. | .procedureNext _ | .versionNext _ | .defined _ => False

/-- what is read belongs to a declaration that is read for a discriminant, and leads to its refusal -/
def Trapped (frames : List Frame) (f : Focus) : Prop :=
  ∃ upper id start rest, frames = upper ++ .discriminant id start :: rest ∧ (∀ fr ∈ upper, fr.IsMember) ∧
    f.Unfit !upper.isEmpty

theorem Trapped.push {fr : Frame} (hfr : fr.IsMember) (h : Trapped frames f₀) (hf : f.Unfit true) :
    Trapped (fr :: frames) f := by
  obtain ⟨upper, id, start, rest, rfl, hupper, -⟩ := h
  exact ⟨fr :: upper, id, start, rest, rfl, List.forall_mem_cons.2 ⟨hfr, hupper⟩, hf⟩

/-- a focus that goes on in the same declaration -/
theorem Trapped.stay (h : Trapped frames f₀) (hf : ∀ deep, f₀.Unfit deep → f.Unfit deep) : Trapped frames f := by
  obtain ⟨upper, id, start, rest, hframes, hupper, hunfit⟩ := h
  exact ⟨upper, id, start, rest, hframes, hupper, hf _ hunfit⟩

theorem Trapped.not_of_unfit (h : Trapped frames f) (hf : ∀ deep, ¬ f.Unfit deep) : False := by
  obtain ⟨upper, id, start, rest, -, -, hunfit⟩ := h
  exact hf _ hunfit

/-! ## Arriving at a focus -/

theorem typed_trapped {t : TypeSpec} (h : Trapped frames (.typed t))
    (hst : State.typed ⟨done, frames, f₀⟩ t = .ok st') : Trapped st'.frames st'.focus := by
  obtain ⟨upper, id, start, rest, rfl, hupper, hunfit⟩ := h
  rcases upper with _ | ⟨fr, upper⟩
  · cases hst
    exact ⟨[], id, start, rest, rfl, hupper, hunfit⟩
  · cases fr with
    | operand start slot => exact (hupper _ List.mem_cons_self).elim
    | «alias» keyword => exact (hupper _ List.mem_cons_self).elim
    | field | discriminant | arm =>
      cases hst
      exact ⟨_ :: upper, id, start, rest, rfl, hupper, hunfit⟩

theorem declared_trapped (h : Trapped frames (.declared d)) (hst : State.declared ⟨done, frames, f₀⟩ d = .ok st') :
    Trapped st'.frames st'.focus := by
  obtain ⟨upper, id, start, rest, rfl, hupper, hunfit⟩ := h
  rcases upper with _ | ⟨fr, upper⟩
  · -- the declaration itself is complete
    have hplain : isDiscriminant d = false := hunfit.resolve_left (by decide)
    simp [declared, hplain] at hst
  · have hrest : ∀ fr ∈ upper, fr.IsMember := (List.forall_mem_cons.1 hupper).2
    cases fr with
    | operand start slot => exact (hupper _ List.mem_cons_self).elim
    | «alias» keyword => exact (hupper _ List.mem_cons_self).elim
    | field | arm =>
      cases hst
      exact ⟨upper, id, start, rest, rfl, hrest, trivial⟩
    | discriminant id' start' =>
      simp only [List.cons_append, declared] at hst
      split_ifs at hst
      cases hst
      exact ⟨upper, id, start, rest, rfl, hrest, trivial⟩

theorem enter_trapped (h : Trapped frames f) (hst : State.enter ⟨done, frames, f₀⟩ f = .ok st') :
    Trapped st'.frames st'.focus := by
  cases f with
  | typed t => exact typed_trapped h hst
  | declared d => exact declared_trapped h hst
  | built b =>
    have hne : frames ≠ [] := by
      obtain ⟨upper, id, start, rest, rfl, -⟩ := h
      simp
    simp only [enter, built, List.isEmpty_iff, hne, if_false] at hst
    exact typed_trapped (h.stay fun _ _ => .inr ⟨b, rfl⟩) hst
  | defined d => exact (h.not_of_unfit fun _ => id).elim
  | field id fields =>
    cases hst
    exact h.push trivial rfl
  | arm u cases isDefault =>
    cases hst
    exact h.push trivial rfl
  | _ =>
    cases hst
    exact h

theorem release_trapped (h : Trapped st.frames st.focus) (hst : st.release = .ok st') :
    Trapped st'.frames st'.focus := by
  obtain ⟨done, frames, f₀⟩ := st
  cases f₀ with
  | unsigned => exact enter_trapped (f := .typed (.named _)) (h.stay fun _ hdeep => .inl hdeep) hst
  | suffix d => exact enter_trapped (f := .declared d) (h.stay fun _ => id) hst
  | fieldNext id fields => exact enter_trapped (f := .field id fields) (h.stay fun _ _ => trivial) hst
  | caseNext u cases => exact enter_trapped (f := .arm u cases false) (h.stay fun _ _ => trivial) hst
  | procedureNext | versionNext => exact (h.not_of_unfit fun _ => id).elim
  | _ =>
    cases hst
    exact h

/-! ## One token -/

theorem TypeStart.unfit {l : Lexeme} (h : TypeStart l f) : f.Unfit true := by
  cases h with
  | unsigned | enum | struct | union => exact rfl
  | basic | named => exact .inl rfl

theorem DeclarationStart.unfit {l : Lexeme} (h : DeclarationStart l f) : f.Unfit true := by
  cases h with
  | void => exact .inl rfl
  | bytes => exact fun _ => trivial
  | string => exact fun _ => .inl rfl
  | type h => exact h.unfit

theorem not_isDiscriminant_of_qualifier (h : (d.qualifier == .scalar) = false) : isDiscriminant d = false := by
  simp [isDiscriminant, h]

theorem follow_trapped (h : Trapped st.frames st.focus) (hst : st.follow tok = .ok (some (s₁, f))) :
    Trapped s₁.frames f := by
  obtain ⟨done, frames, focus⟩ := st
  have hgo : ∀ {g : Focus}, (∀ deep, g.Unfit deep) → Trapped frames g := fun hg => h.stay fun deep _ => hg deep
  let P : State → Focus → Prop := fun s f => Trapped s.frames f
  cases focus with
  | punct p next => exact of_follow_if (P := P) hst (fun _ => h.stay fun _ => id) of_follow_refuse
  | keyword w next => exact of_follow_if (P := P) hst (fun _ => h.stay fun _ => id) of_follow_refuse
  | name role next => exact of_follow_map (P := P) hst fun n _ => h.stay fun _ hunfit => hunfit n
  | value next => exact of_follow_map (P := P) hst fun v _ => h.stay fun _ hunfit => hunfit v
  | tagNext id tags =>
    refine of_follow_if (P := P) hst (fun _ => hgo fun _ _ _ => trivial) fun hst => ?_
    exact of_follow_if (P := P) hst (fun _ => hgo fun _ => trivial) of_follow_refuse
  | armNext u =>
    refine of_follow_if (P := P) hst (fun _ => hgo fun _ => trivial) fun hst => ?_
    refine of_follow_if (P := P) hst (fun _ => hgo fun _ _ => trivial) fun hst => ?_
    exact of_follow_if (P := P) hst (fun _ => hgo fun _ => trivial) of_follow_refuse
  | declaration =>
    refine of_follow_focus (P := P) hst fun g hg => h.stay fun deep hdeep => ?_
    obtain rfl : deep = true := hdeep
    exact (declarationFocus_cases hg).unfit
  | discriminant id =>
    exact of_follow_focus (P := P) hst fun g hg => h.push trivial (declarationFocus_cases hg).unfit
  | enumType =>
    refine of_follow_if (P := P) hst (fun _ => hgo fun _ _ _ => trivial) fun hst => ?_
    exact of_follow_map (P := P) hst fun n _ => h.stay fun _ hdeep => .inl hdeep
  | structType | unionType =>
    refine of_follow_if (P := P) hst (fun _ => hgo fun _ => trivial) fun hst => ?_
    exact of_follow_map (P := P) hst fun n _ => h.stay fun _ hdeep => .inl hdeep
  | declarator t =>
    refine of_follow_if (P := P) hst (fun _ => hgo fun _ id => .inr ?_) fun hst => ?_
    · cases t <;> exact not_isDiscriminant_of_qualifier rfl
    · refine of_follow_map (P := P) hst fun n _ => h.stay fun _ hunfit => hunfit.imp_right ?_
      rintro ⟨b, rfl⟩
      simp [TypeSpec.decl, isDiscriminant, Decl.isInline]
  | opaqueSuffix id =>
    refine of_follow_if (P := P) hst (fun _ => hgo fun _ _ => .inr (not_isDiscriminant_of_qualifier rfl))
      fun hst => ?_
    refine of_follow_if (P := P) hst (fun _ => hgo fun _ => .inr fun v => ?_) of_follow_refuse
    exact not_isDiscriminant_of_qualifier rfl
  | suffix d =>
    refine of_follow_if (P := P) hst (fun _ => hgo fun _ _ => .inr (not_isDiscriminant_of_qualifier rfl))
      fun hst => ?_
    refine of_follow_if (P := P) hst (fun _ => hgo fun _ => .inr fun v => ?_) of_follow_refuse
    exact not_isDiscriminant_of_qualifier rfl
  | limit d =>
    have hbound : ∀ bound deep, (Focus.limit d).Unfit deep → (Focus.declared { d with bound }).Unfit deep :=
      fun bound _ hunfit => hunfit.imp_right fun hd => hd bound
    refine of_follow_if (P := P) hst (fun _ => h.stay (hbound d.bound)) fun hst => ?_
    exact of_follow_map (P := P) hst fun v _ => h.stay (hbound v)
  | unsigned =>
    refine of_follow_if (P := P) hst (fun _ => h.stay fun _ hdeep => .inl hdeep) fun hst => ?_
    exact of_follow_if (P := P) hst (fun _ => h.stay fun _ hdeep => .inl hdeep) of_follow_refuse
  | fieldNext id fields => exact of_follow_if (P := P) hst (fun _ => hgo fun _ => trivial) of_follow_refuse
  | caseNext u cases => exact of_follow_if (P := P) hst (fun _ => hgo fun _ _ => trivial) of_follow_refuse
  | definition | operand | argumentNext | procedureNext | versionNext =>
    exact (h.not_of_unfit fun _ => id).elim
  | typed | declared | built | defined | field | arm => cases hst

/-- a token leads from a declaration that is to be refused to nothing but the same -/
theorem step_trapped (h : Trapped st.frames st.focus) (hst : st.step tok = .ok st') :
    Trapped st'.frames st'.focus := by
  obtain ⟨s, s₁, f, hs, hfollow, henter⟩ := exists_of_step hst
  have hkept : Trapped s.frames s.focus := by
    split_ifs at hs
    · cases hs
      exact h
    · exact release_trapped h hs
  exact enter_trapped (follow_trapped hkept hfollow) henter

/-! ## All tokens -/

theorem run_trapped (h : Trapped st.frames st.focus) (hrun : st.run toks = .ok st') :
    Trapped st'.frames st'.focus := by
  induction toks generalizing st with
  | nil =>
    cases hrun
    exact h
  | cons tok toks ih =>
    rw [run_cons] at hrun
    obtain ⟨s, hstep, hrun⟩ := of_bind_eq_ok hrun
    exact ih (step_trapped h hstep) hrun

/-- no text is accepted that has such a declaration -/
theorem Trapped.not_ends (h : Trapped st.frames st.focus) : ¬ st.Ends := by
  rintro ⟨toks, st', hrun, hend⟩
  obtain ⟨upper, id, start, rest, -, -, hunfit⟩ := run_trapped h hrun
  rw [hend] at hunfit
  exact hunfit

/-! ## Declarations that are accepted -/

/-- the words of a type that is named, and its name -/
inductive TypeWords : List Lexeme → String → Prop
  | basic {w : String} (h : w ∈ basicWords) : TypeWords [.word w] w
  | unsigned : TypeWords [.word "unsigned"] "unsigned int"
  | unsignedInt : TypeWords [.word "unsigned", .word "int"] "unsigned int"
  | unsignedHyper : TypeWords [.word "unsigned", .word "hyper"] "unsigned hyper"
  | named {n : String} (h : asName (.word n) = some n) : TypeWords [.word n] n
  | tagged {k n : String} (hk : k ∈ ["enum", "struct", "union"]) (h : asName (.word n) = some n) :
    TypeWords [.word k, .word n] n

/-- a bound and the bracket behind it, or the bracket alone -/
inductive LimitWords : List Lexeme → Prop
  | unlimited : LimitWords [.punct .rangle]
  | limited {l : Lexeme} {bound : String} (h : asValue l = some bound) : LimitWords [l, .punct .rangle]

/-- a declaration of a discriminant that is accepted, with the name and the type that are kept of it: a named type and a
name, which is all there is to keep; or a string, whose bound is not kept -/
inductive TagDeclaration : List Lexeme → String → String → Prop
  | plain {ws : List Lexeme} {tagId tagType : String} (htype : TypeWords ws tagType)
    (hid : asName (.word tagId) = some tagId) : TagDeclaration (ws ++ [.word tagId]) tagId tagType
  | text {ws : List Lexeme} {tagId : String} (hid : asName (.word tagId) = some tagId) (hlimit : LimitWords ws) :
    TagDeclaration (.word "string" :: .word tagId :: .punct .langle :: ws) tagId "string"

/-- the tokens lead from the state to `last`, where the text may end -/
def State.EndsBy (st : State) (toks : List Token) (last : State) : Prop :=
  st.run toks = .ok last ∧ last.focus = .definition

variable {last s : State} {rest : List Token} {tagId tagType n : String} {l : Lexeme}

theorem asName_eq_some (h : asName l = some n) : l = .word n ∧ asName (.word n) = some n := by
  cases l with
  | word w =>
    have hw := h
    simp only [asName] at hw
    split_ifs at hw
    cases hw
    exact ⟨rfl, h⟩
  | number | punct => cases h

theorem State.EndsBy.not_trapped (h : st.EndsBy toks last) : ¬ Trapped st.frames st.focus :=
  fun htrapped => htrapped.not_ends ⟨toks, last, h.1, h.2⟩

/-- elsewhere than between definitions there is a token to take -/
theorem State.EndsBy.step (h : st.EndsBy toks last) (hfocus : st.focus ≠ .definition) :
    ∃ tok rest s, toks = tok :: rest ∧ st.step tok = .ok s ∧ s.EndsBy rest last := by
  obtain ⟨hrun, hend⟩ := h
  cases toks with
  | nil =>
    cases hrun
    exact absurd hend hfocus
  | cons tok toks =>
    rw [run_cons] at hrun
    obtain ⟨s, hstep, hrun⟩ := of_bind_eq_ok hrun
    exact ⟨tok, toks, s, rfl, hstep, hrun, hend⟩

/-- the same where the focus does not give the token up -/
theorem State.EndsBy.follow (h : st.EndsBy toks last) (hfocus : st.focus ≠ .definition)
    (hkeeps : ∀ l, keeps st.focus l = true) : ∃ tok rest s f s', toks = tok :: rest ∧
      st.follow tok = .ok (some (s, f)) ∧ s.enter f = .ok s' ∧ s'.EndsBy rest last := by
  obtain ⟨tok, rest, s', rfl, hstep, hends⟩ := h.step hfocus
  obtain ⟨s, f, hfollow, henter⟩ := exists_follow_of_step (hkeeps _) hstep
  exact ⟨tok, rest, s, f, s', rfl, hfollow, henter, hends⟩

theorem State.EndsBy.punct {p : Punct} (h : State.EndsBy ⟨done, frames, .punct p next⟩ toks last) :
    ∃ tok rest s, toks = tok :: rest ∧ tok.lexeme = .punct p ∧
      State.enter ⟨done, frames, .punct p next⟩ next = .ok s ∧ s.EndsBy rest last := by
  obtain ⟨tok, rest, s, f, s', rfl, hfollow, henter, hends⟩ := h.follow nofun fun _ => rfl
  simp only [State.follow] at hfollow
  split_ifs at hfollow with hl
  · cases hfollow
    exact ⟨tok, rest, s', rfl, hl, henter, hends⟩
  · cases hfollow

theorem State.EndsBy.name {role : String} {next : String → Focus}
    (h : State.EndsBy ⟨done, frames, .name role next⟩ toks last) :
    ∃ tok rest n s, toks = tok :: rest ∧ tok.lexeme = .word n ∧ asName (.word n) = some n ∧
      State.enter ⟨done, frames, .name role next⟩ (next n) = .ok s ∧ s.EndsBy rest last := by
  obtain ⟨tok, rest, s, f, s', rfl, hfollow, henter, hends⟩ := h.follow nofun fun _ => rfl
  obtain ⟨n, hn, heq⟩ := Option.map_eq_some_iff.1 (Except.ok.inj hfollow)
  cases heq
  obtain ⟨hl, hname⟩ := asName_eq_some hn
  exact ⟨tok, rest, n, s', rfl, hl, hname, henter, hends⟩

section

variable (done frames id start)

/-- a declaration is read for the discriminant of a union -/
def reading (f : Focus) : State := ⟨done, .discriminant id start :: frames, f⟩

/-- the discriminant of a union has been read -/
def afterTag (tagId tagType : String) : State :=
  ⟨done, frames, .punct .rparen (.punct .lbrace (.armNext { id, tagId, tagType }))⟩

end

/-- what is accepted for a discriminant is kept by its name and its type -/
theorem eq_afterTag (g : Focus) (h : (reading done frames id start g).enter (.declared d) = .ok s) :
    s = afterTag done frames id d.id d.typeName := by
  simp only [enter, reading, declared] at h
  split_ifs at h
  cases h
  rfl

/-- a declaration for a discriminant that is to be refused ends nowhere -/
theorem not_endsBy_of_unfit (henter : (reading done frames id start f₀).enter f = .ok s) (hf : f.Unfit false) :
    ¬ s.EndsBy toks last := by
  have htrapped : Trapped (.discriminant id start :: frames) f := ⟨[], id, start, frames, rfl, nofun, hf⟩
  exact fun h => h.not_trapped (enter_trapped htrapped henter)

/-- brackets behind the name make an array or a vector -/
theorem endsBy_suffix (h : (reading done frames id start (.suffix d)).EndsBy toks last) :
    (afterTag done frames id d.id d.typeName).EndsBy toks last := by
  obtain ⟨tok, rest, s, rfl, hstep, hends⟩ := h.step nofun
  by_cases hk : keeps (.suffix d) tok.lexeme = true
  · obtain ⟨s₁, f, hfollow, henter⟩ := exists_follow_of_step hk hstep
    simp only [State.follow, reading] at hfollow
    refine absurd hends ?_
    split_ifs at hfollow
    · cases hfollow
      exact not_endsBy_of_unfit henter fun _ => .inr (not_isDiscriminant_of_qualifier rfl)
    · cases hfollow
      exact not_endsBy_of_unfit henter (.inr fun _ => not_isDiscriminant_of_qualifier rfl)
    · cases hfollow
  · have hkeeps : keeps (.suffix d) tok.lexeme = false := Bool.eq_false_iff.2 hk
    have hrelease : ∃ s₁, (reading done frames id start (.suffix d)).release = .ok s₁ := by
      rw [step_eq] at hstep
      obtain ⟨s₁, hs₁, -⟩ := of_bind_eq_ok hstep
      split_ifs at hs₁ with hk'
      · exact absurd hk' hk
      · exact ⟨s₁, hs₁⟩
    obtain ⟨s₁, hrelease⟩ := hrelease
    obtain rfl := eq_afterTag (.suffix d) (d := d) hrelease
    have hsame : (reading done frames id start (.suffix d)).step tok =
        (afterTag done frames id d.id d.typeName).step tok := step_of_release hkeeps hrelease rfl
    obtain ⟨hrun, hend⟩ := h
    rw [run_cons, hsame, ← run_cons] at hrun
    exact ⟨hrun, hend⟩

/-- what stands behind the type -/
theorem endsBy_declarator (h : (reading done frames id start (.declarator (.named n))).EndsBy toks last) :
    ∃ tok rest tagId, toks = tok :: rest ∧ tok.lexeme = .word tagId ∧ asName (.word tagId) = some tagId ∧
      (afterTag done frames id tagId n).EndsBy rest last := by
  obtain ⟨tok, rest, s, f, s', rfl, hfollow, henter, hends⟩ := h.follow nofun fun _ => rfl
  simp only [State.follow, reading] at hfollow
  split_ifs at hfollow
  · cases hfollow
    exact absurd hends (not_endsBy_of_unfit henter fun _ => .inr (not_isDiscriminant_of_qualifier rfl))
  · obtain ⟨tagId, hid, heq⟩ := Option.map_eq_some_iff.1 (Except.ok.inj hfollow)
    cases heq
    cases henter
    obtain ⟨hl, hname⟩ := asName_eq_some hid
    exact ⟨tok, rest, tagId, rfl, hl, hname, endsBy_suffix hends⟩

/-- what stands behind the opening bracket of a string -/
theorem endsBy_limit (h : (reading done frames id start (.limit d)).EndsBy toks last) :
    ∃ ts rest, toks = ts ++ rest ∧ LimitWords (ts.map Token.lexeme) ∧
      (afterTag done frames id d.id d.typeName).EndsBy rest last := by
  obtain ⟨tok, rest, s, f, s', rfl, hfollow, henter, hends⟩ := h.follow nofun fun _ => rfl
  simp only [State.follow, reading] at hfollow
  split_ifs at hfollow with hl
  · cases hfollow
    obtain rfl := eq_afterTag (.limit d) henter
    refine ⟨[tok], rest, rfl, ?_, hends⟩
    rw [List.map_singleton, hl]
    exact .unlimited
  · obtain ⟨v, hv, heq⟩ := Option.map_eq_some_iff.1 (Except.ok.inj hfollow)
    cases heq
    cases henter
    obtain ⟨tok', rest, s, rfl, hl', henter, hends⟩ := hends.punct
    obtain rfl := eq_afterTag (.punct .rangle _) henter
    refine ⟨[tok, tok'], rest, rfl, ?_, hends⟩
    rw [List.map_cons, List.map_singleton, hl']
    exact .limited hv

/-- behind the keyword of a definition stands a name, or a body -/
theorem endsBy_tagged (hf : f = .enumType ∨ f = .structType ∨ f = .unionType)
    (h : (reading done frames id start f).EndsBy toks last) :
    ∃ tok rest n, toks = tok :: rest ∧ tok.lexeme = .word n ∧ asName (.word n) = some n ∧
      (reading done frames id start (.declarator (.named n))).EndsBy rest last := by
  have hwaits : f ≠ .definition ∧ ∀ l, keeps f l = true := by
    rcases hf with rfl | rfl | rfl <;> exact ⟨nofun, fun _ => rfl⟩
  obtain ⟨tok, rest, s, g, s', rfl, hfollow, henter, hends⟩ := h.follow hwaits.1 hwaits.2
  let P : State → Focus → Prop := fun s g => s = reading done frames id start f ∧
    (g.Unfit false ∨ ∃ n, asName tok.lexeme = some n ∧ g = .typed (.named n))
  have hcases : P s g := by
    rcases hf with rfl | rfl | rfl
    · exact of_follow_if (P := P) hfollow (fun _ => ⟨rfl, .inl fun _ _ => trivial⟩) fun hfollow =>
        of_follow_map (P := P) hfollow fun n hn => ⟨rfl, .inr ⟨n, hn, rfl⟩⟩
    · exact of_follow_if (P := P) hfollow (fun _ => ⟨rfl, .inl trivial⟩) fun hfollow =>
        of_follow_map (P := P) hfollow fun n hn => ⟨rfl, .inr ⟨n, hn, rfl⟩⟩
    · exact of_follow_if (P := P) hfollow (fun _ => ⟨rfl, .inl trivial⟩) fun hfollow =>
        of_follow_map (P := P) hfollow fun n hn => ⟨rfl, .inr ⟨n, hn, rfl⟩⟩
  obtain ⟨rfl, hunfit | ⟨n, hn, rfl⟩⟩ := hcases
  · exact absurd hends (not_endsBy_of_unfit henter hunfit)
  · cases henter
    obtain ⟨hl, hname⟩ := asName_eq_some hn
    exact ⟨tok, rest, n, rfl, hl, hname, hends⟩

theorem endsBy_unsigned (h : (reading done frames id start .unsigned).EndsBy toks last) :
    ∃ ts rest n, toks = ts ++ rest ∧ TypeWords (.word "unsigned" :: ts.map Token.lexeme) n ∧
      (reading done frames id start (.declarator (.named n))).EndsBy rest last := by
  obtain ⟨tok, rest, s, rfl, hstep, hends⟩ := h.step nofun
  by_cases hk : keeps .unsigned tok.lexeme = true
  · obtain ⟨s₁, f, hfollow, henter⟩ := exists_follow_of_step hk hstep
    simp only [State.follow, reading] at hfollow
    split_ifs at hfollow with hhyper hint
    · cases hfollow
      cases henter
      exact ⟨[tok], rest, _, rfl, by rw [List.map_singleton, hhyper]; exact .unsignedHyper, hends⟩
    · cases hfollow
      cases henter
      exact ⟨[tok], rest, _, rfl, by rw [List.map_singleton, hint]; exact .unsignedInt, hends⟩
    · cases hfollow
  · have hsame : (reading done frames id start .unsigned).step tok =
        (reading done frames id start (.declarator (.named Primitive.unsignedInt.idlName))).step tok :=
      step_of_release (Bool.eq_false_iff.2 hk) rfl rfl
    obtain ⟨hrun, hend⟩ := h
    rw [run_cons, hsame, ← run_cons] at hrun
    exact ⟨[], _, _, rfl, .unsigned, hrun, hend⟩

/-- what stands behind the first word of a type -/
theorem endsBy_type (htype : TypeStart tok.lexeme f)
    (henter : (reading done frames id start f₀).enter f = .ok s) (h : s.EndsBy toks last) :
    ∃ ts rest tagId tagType, toks = ts ++ rest ∧
      TagDeclaration (tok.lexeme :: ts.map Token.lexeme) tagId tagType ∧
      (afterTag done frames id tagId tagType).EndsBy rest last := by
  -- the type is complete with the tokens `us`
  have hdone : ∀ (us : List Token) {toks : List Token} {n : String}, TypeWords (tok.lexeme :: us.map Token.lexeme) n →
      (reading done frames id start (.declarator (.named n))).EndsBy toks last →
      ∃ ts rest tagId tagType, us ++ toks = ts ++ rest ∧
        TagDeclaration (tok.lexeme :: ts.map Token.lexeme) tagId tagType ∧
        (afterTag done frames id tagId tagType).EndsBy rest last := by
    intro us toks n hwords h
    obtain ⟨tok', rest, tagId, rfl, hl, hid, hends⟩ := endsBy_declarator h
    refine ⟨us ++ [tok'], rest, tagId, n, by rw [List.append_assoc]; rfl, ?_, hends⟩
    rw [List.map_append, List.map_singleton, hl]
    exact .plain hwords hid
  -- a name stands behind the keyword of a definition
  have htagged : ∀ {k : String} {g : Focus}, k ∈ ["enum", "struct", "union"] → tok.lexeme = .word k →
      (g = .enumType ∨ g = .structType ∨ g = .unionType) → (reading done frames id start g).EndsBy toks last →
      ∃ ts rest tagId tagType, toks = ts ++ rest ∧
        TagDeclaration (tok.lexeme :: ts.map Token.lexeme) tagId tagType ∧
        (afterTag done frames id tagId tagType).EndsBy rest last := by
    intro k g hk htok hg h
    obtain ⟨tok', rest, n, rfl, hl, hname, hends⟩ := endsBy_tagged hg h
    refine hdone [tok'] ?_ hends
    rw [List.map_singleton, htok, hl]
    exact .tagged hk hname
  cases htype with
  | unsigned htok =>
    cases henter
    obtain ⟨us, rest, n, rfl, hwords, hends⟩ := endsBy_unsigned h
    exact hdone us (htok ▸ hwords) hends
  | enum htok =>
    cases henter
    exact htagged (by decide) htok (.inl rfl) h
  | struct htok =>
    cases henter
    exact htagged (by decide) htok (.inr (.inl rfl)) h
  | union htok =>
    cases henter
    exact htagged (by decide) htok (.inr (.inr rfl)) h
  | basic htok hw =>
    cases henter
    exact hdone [] (htok ▸ .basic hw) h
  | named hn =>
    cases henter
    obtain ⟨hl, hname⟩ := asName_eq_some hn
    exact hdone [] (hl ▸ .named hname) h

/-- **What stands behind `switch (` in a text that is accepted** is a named type and a name, and both are kept; or it is
a string, and its bound is not kept. -/
theorem exists_tagDeclaration (h : State.EndsBy ⟨done, frames, .discriminant id⟩ toks last) :
    ∃ ts rest tagId tagType, toks = ts ++ rest ∧ TagDeclaration (ts.map Token.lexeme) tagId tagType ∧
      (afterTag done frames id tagId tagType).EndsBy rest last := by
  obtain ⟨tok, rest, s, f, s', rfl, hfollow, henter, hends⟩ := h.follow nofun fun _ => rfl
  have hpush : ∃ start, s = reading done frames id start (.discriminant id) ∧ declarationFocus tok = .ok (some f) :=
    of_follow_focus (P := fun s f => ∃ start, s = reading done frames id start (.discriminant id) ∧
      declarationFocus tok = .ok (some f)) hfollow fun g hg => ⟨tok.pos, rfl, hg⟩
  obtain ⟨start, rfl, hfocus⟩ := hpush
  cases declarationFocus_cases hfocus with
  | void => exact absurd hends (not_endsBy_of_unfit henter (.inr rfl))
  | bytes => exact absurd hends (not_endsBy_of_unfit henter fun _ => trivial)
  | string htok =>
    cases henter
    obtain ⟨tok₁, rest, n, s, rfl, hl₁, hid, henter, hends⟩ := hends.name
    cases henter
    obtain ⟨tok₂, rest, s, rfl, hl₂, henter, hends⟩ := hends.punct
    cases henter
    obtain ⟨ts, rest, rfl, hlimit, hends⟩ := endsBy_limit hends
    refine ⟨tok :: tok₁ :: tok₂ :: ts, rest, n, "string", rfl, ?_, hends⟩
    rw [List.map_cons, List.map_cons, List.map_cons, htok, hl₁, hl₂]
    exact .text hid hlimit
  | type htype =>
    obtain ⟨ts, rest, tagId, tagType, rfl, hdecl, hends⟩ := endsBy_type htype henter hends
    exact ⟨tok :: ts, rest, tagId, tagType, rfl, hdecl, hends⟩

end Xdr.Grammar
