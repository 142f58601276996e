/-
The discriminants of a text and those of its unions.

Every union of a text, at any depth, begins with the word `switch`, and nothing else does. The unions that are read are
those of the definitions that are done, those that the open frames hold, and those that the focus holds; a token adds
none of them but behind that word.
- `step_carries`, `step_switch`: what one token does to the unions that were read.
- `run_carries`: what all tokens do.
- `discriminants_as_declared`: the unions of an accepted text have, in order, the discriminants that stand in it.
- `bound_dropped`: two texts that differ in the bound of a discriminant, and make up one union.
-/
import Mathlib
import Xdr.Proofs.Grammar.Discriminants
import Xdr.Proofs.Grammar.Output
import Xdr.Proofs.Schema.Rules

namespace Xdr

/-! ## Discriminants of definitions and of texts -/

/-- the name and the type of the discriminant of a union -/
def Definition.discriminant? : Definition → Option (String × String)
  | .union _ tagId tagType _ _ => some (tagId, tagType)
  | _ => none

/-- the discriminants of the unions among some bodies -/
def discriminantsOf (bodies : List Definition) : List (String × String) := bodies.filterMap Definition.discriminant?

/-- the discriminants of all unions of some definitions, at any depth, each before those inside of it -/
def discriminants (ds : List Definition) : List (String × String) := discriminantsOf (ds.flatMap Definition.bodies)

/-- what stands behind each word `switch` -/
def switched : List Lexeme → List (List Lexeme)
  | [] => []
  | l :: ls => if l = .word "switch" then ls :: switched ls else switched ls

theorem discriminantsOf_append (bs cs : List Definition) :
    discriminantsOf (bs ++ cs) = discriminantsOf bs ++ discriminantsOf cs := List.filterMap_append

theorem switched_cons_of_ne {l : Lexeme} (h : l ≠ .word "switch") (ls : List Lexeme) :
    switched (l :: ls) = switched ls := if_neg h

theorem switched_append {ls : List Lexeme} (h : ∀ l ∈ ls, l ≠ .word "switch") (ms : List Lexeme) :
    switched (ls ++ ms) = switched ms := by
  induction ls with
  | nil => rfl
  | cons l ls ih =>
    rw [List.forall_mem_cons] at h
    rw [List.cons_append, switched_cons_of_ne h.1, ih h.2]

namespace Grammar

open State

variable {st st' s s₁ last : State} {done : Array Definition} {frames : List Frame} {f f₀ next : Focus} {tok : Token}
  {toks : List Token} {d : Decl} {id : String} {us : List (String × String)} {tagId tagType : String} {ws : List Lexeme}

/-! ## Words of a declaration -/

theorem ne_switch_of_asName {n : String} (h : asName (.word n) = some n) : Lexeme.word n ≠ .word "switch" := by
  intro hl
  rw [hl] at h
  cases h

theorem ne_switch_of_mem {w : String} {words : List String} (h : w ∈ words) (hwords : "switch" ∉ words) :
    Lexeme.word w ≠ .word "switch" := by
  rintro ⟨⟩
  exact hwords h

theorem TypeWords.ne_switch (h : TypeWords ws tagType) : ∀ l ∈ ws, l ≠ .word "switch" := by
  cases h with
  | basic hw => exact List.forall_mem_singleton.2 (ne_switch_of_mem hw (by decide))
  | unsigned | unsignedInt | unsignedHyper => decide
  | named hn => exact List.forall_mem_singleton.2 (ne_switch_of_asName hn)
  | tagged hk hn =>
    exact List.forall_mem_cons.2
      ⟨ne_switch_of_mem hk (by decide), List.forall_mem_singleton.2 (ne_switch_of_asName hn)⟩

theorem LimitWords.ne_switch (h : LimitWords ws) : ∀ l ∈ ws, l ≠ .word "switch" := by
  cases h with
  | unlimited => decide
  | @limited l bound hl =>
    refine List.forall_mem_cons.2 ⟨?_, by decide⟩
    rintro rfl
    cases hl

theorem TagDeclaration.ne_switch (h : TagDeclaration ws tagId tagType) : ∀ l ∈ ws, l ≠ .word "switch" := by
  cases h with
  | plain htype hid =>
    exact List.forall_mem_append.2 ⟨htype.ne_switch, List.forall_mem_singleton.2 (ne_switch_of_asName hid)⟩
  | text hid hlimit =>
    refine List.forall_mem_cons.2 ⟨by decide, List.forall_mem_cons.2 ⟨ne_switch_of_asName hid, ?_⟩⟩
    exact List.forall_mem_cons.2 ⟨by decide, hlimit.ne_switch⟩

theorem TypeWords.isTypeName (hws : ∀ l ∈ ws, l.wellSpelled = true) (h : TypeWords ws tagType) :
    isTypeName tagType = true := by
  have hname : ∀ {n : String}, (Lexeme.word n).wellSpelled = true → asName (.word n) = some n →
      Xdr.isTypeName n = true := fun hl hn => Bool.or_eq_true_iff.2 (.inr (isName_of_asName hl hn))
  cases h with
  | basic hw => exact isTypeName_of_basic hw
  | unsigned | unsignedInt | unsignedHyper => decide
  | named hn => exact hname (hws _ List.mem_cons_self) hn
  | tagged _ hn => exact hname (hws _ (List.mem_cons_of_mem _ List.mem_cons_self)) hn

/-- a discriminant that is declared has a name, and a type that is one of a discriminant -/
theorem TagDeclaration.good (hws : ∀ l ∈ ws, l.wellSpelled = true) (h : TagDeclaration ws tagId tagType) :
    isName tagId = true ∧ isDiscriminantType tagType = true := by
  cases h with
  | plain htype hid =>
    rw [List.forall_mem_append, List.forall_mem_singleton] at hws
    exact ⟨isName_of_asName hws.2 hid, Bool.or_eq_true_iff.2 (.inr (htype.isTypeName hws.1))⟩
  | text hid _ => exact ⟨isName_of_asName (hws _ (List.mem_cons_of_mem _ List.mem_cons_self)) hid, rfl⟩

/-! ## Discriminants in a state -/

def OpenUnion.discriminants (u : OpenUnion) : List (String × String) :=
  (u.tagId, u.tagType) :: discriminantsOf (armBodies u.arms)

def TypeSpec.bodies : TypeSpec → List Definition
  | .named _ => []
  | .body d => d.bodies

def Frame.discriminants : Frame → List (String × String)
  | .field _ fields => discriminantsOf (fieldBodies fields)
  | .arm u _ _ => u.discriminants
  | _ => []

/-- the outermost frame first -/
def openDiscriminants : List Frame → List (String × String)
  | [] => []
  | fr :: rest => openDiscriminants rest ++ fr.discriminants

/-- no discriminant is being read, and a type definition is not inside of anything -/
def Clean : List Frame → Prop
  | [] => True
  | .alias _ :: rest => rest = []
  | .discriminant .. :: _ => False
  | _ :: rest => Clean rest

/-- the focus holds these discriminants, and another one comes behind the word `switch` only -/
def Focus.Holds (frames : List Frame) (us : List (String × String)) : Focus → Prop
  | .punct _ next => next.Holds frames us
  | .keyword w next =>
    if w = "switch" then us = [] ∧ ∃ id, next = .punct .lparen (.discriminant id) else next.Holds frames us
  | .name _ next => ∀ s, (next s).Holds frames us
  | .value next => ∀ v, (next v).Holds frames us
  | .definition => frames = [] ∧ us = []
  | .discriminant _ => False
  | .armNext u | .caseNext u _ | .arm u _ _ => us = u.discriminants
  | .fieldNext _ fields | .field _ fields => us = discriminantsOf (fieldBodies fields)
  | .typed t | .declarator t => us = discriminantsOf t.bodies
  | .suffix d | .limit d | .declared d => us = discriminantsOf d.bodies
  | .built d => us = discriminantsOf d.bodies
  | .defined d => frames = [] ∧ us = discriminantsOf d.bodies
  | .tagNext .. | .declaration | .enumType | .structType | .unionType | .opaqueSuffix _ | .operand _
  | .argumentNext .. | .unsigned | .procedureNext _ | .versionNext _ => us = []

/-- the discriminants that were read, in order -/
def Carries (done : Array Definition) (frames : List Frame) (f : Focus) (us : List (String × String)) : Prop :=
  Clean frames ∧ ∃ own, f.Holds frames own ∧ us = discriminants done.toList ++ openDiscriminants frames ++ own

theorem decl_bodies (t : TypeSpec) (id : String) (q : Qualifier) : (t.decl id q).bodies = t.bodies := by
  cases t <;> rfl

theorem bodies_qualified (d : Decl) (q : Qualifier) (bound : String) :
    Decl.bodies { d with qualifier := q, bound } = d.bodies := by
  rw [Decl.bodies_eq, Decl.bodies_eq]

theorem discriminants_addArm (u : OpenUnion) (cases : List String) (isDefault : Bool) (d : Decl) :
    (u.addArm cases isDefault d).discriminants = u.discriminants ++ discriminantsOf d.bodies := by
  rw [OpenUnion.discriminants, OpenUnion.discriminants, OpenUnion.addArm, armBodies_eq, armBodies_eq, List.map_append,
    List.flatMap_append, discriminantsOf_append, List.cons_append]
  simp

theorem discriminants_concat (fields : List Decl) (d : Decl) :
    discriminantsOf (fieldBodies (fields ++ [d])) =
      discriminantsOf (fieldBodies fields) ++ discriminantsOf d.bodies := by
  rw [fieldBodies_eq, fieldBodies_eq, List.flatMap_append, discriminantsOf_append, List.flatMap_singleton]

theorem discriminants_push (done : Array Definition) (d : Definition) :
    discriminants (done.push d).toList = discriminants done.toList ++ discriminantsOf d.bodies := by
  rw [discriminants, Array.toList_push, List.flatMap_append, discriminantsOf_append, List.flatMap_singleton]
  rfl

theorem discriminants_close (u : OpenUnion) : discriminantsOf u.close.bodies = u.discriminants := by
  rw [OpenUnion.close, Definition.bodies]
  rfl

/-! ## Arriving at a focus -/

/-- a focus that goes on holds what another one did -/
theorem Carries.stay (h : Carries done frames f us) (hf : ∀ own, f.Holds frames own → next.Holds frames own) :
    Carries done frames next us := by
  obtain ⟨hclean, own, hholds, hus⟩ := h
  exact ⟨hclean, own, hf own hholds, hus⟩

theorem slotFocus_holds (name : String) (slot : Slot) : (slotFocus name slot).Holds frames [] := by
  cases slot with
  | result v => exact fun _ => rfl
  | argument v result id args => rfl

theorem typed_carries {t : TypeSpec} (h : Carries done frames (.typed t) us)
    (hst : State.typed ⟨done, frames, f₀⟩ t = .ok st') : Carries st'.done st'.frames st'.focus us := by
  obtain ⟨hclean, own, hholds, hus⟩ := h
  rcases frames with _ | ⟨fr, frames⟩
  · cases hst
    exact ⟨hclean, own, hholds, hus⟩
  · cases fr with
    | operand start slot =>
      cases t with
      | body b => cases hst
      | named n =>
        cases hst
        refine ⟨hclean, [], slotFocus_holds n slot, ?_⟩
        rw [hus, hholds, openDiscriminants]
        simp [TypeSpec.bodies, discriminantsOf, Frame.discriminants]
    | _ =>
      cases hst
      exact ⟨hclean, own, hholds, hus⟩

theorem bodies_of_isVoid (hd : (d.isNothing || d.grammatical) = true) (h : d.isVoid = true) : d.bodies = [] := by
  rcases Bool.or_eq_true_iff.1 hd with hnothing | hg
  · rw [Decl.eq_void_of_isNothing hnothing]
    rfl
  · rw [Decl.isVoid_of_grammatical hg] at h
    cases h

theorem declared_carries (h : Carries done frames (.declared d) us) (hgood : (Focus.declared d).Good frames)
    (hst : State.declared ⟨done, frames, f₀⟩ d = .ok st') : Carries st'.done st'.frames st'.focus us := by
  obtain ⟨hclean, own, hholds, hus⟩ := h
  obtain ⟨hne, hd⟩ := hgood
  obtain rfl : own = discriminantsOf d.bodies := hholds
  obtain ⟨fr, frames, rfl⟩ := List.exists_cons_of_ne_nil hne
  rw [openDiscriminants, List.append_assoc, List.append_assoc] at hus
  cases fr with
  | «alias» keyword =>
    obtain rfl : frames = [] := hclean
    simp only [declared] at hst
    split_ifs at hst
    cases hst
    refine ⟨trivial, _, ⟨rfl, rfl⟩, ?_⟩
    rw [hus, List.append_assoc, Definition.bodies]
    rfl
  | field id fields =>
    cases hst
    refine ⟨hclean, _, rfl, ?_⟩
    rw [hus, Frame.discriminants]
    cases hvoid : d.isVoid with
    | true =>
      rw [bodies_of_isVoid hd hvoid, List.append_assoc]
      simp [discriminantsOf]
    | false =>
      rw [if_neg (by decide), discriminants_concat, List.append_assoc]
  | discriminant => exact hclean.elim
  | arm u cases isDefault =>
    cases hst
    refine ⟨hclean, _, rfl, ?_⟩
    rw [hus, Frame.discriminants, discriminants_addArm, List.append_assoc]
  | operand start slot => cases hst

theorem enter_carries (h : Carries done frames f us) (hgood : f.Good frames)
    (hst : State.enter ⟨done, frames, f₀⟩ f = .ok st') : Carries st'.done st'.frames st'.focus us := by
  cases f with
  | typed t => exact typed_carries h hst
  | declared d => exact declared_carries h hgood hst
  | built b =>
    simp only [enter, built] at hst
    split_ifs at hst with hempty
    · obtain rfl : frames = [] := List.isEmpty_iff.1 hempty
      cases hst
      exact h.stay fun _ hown => ⟨rfl, hown⟩
    · exact typed_carries (h.stay fun _ => id) hst
  | defined b =>
    obtain ⟨-, own, ⟨rfl, rfl⟩, hus⟩ := h
    cases hst
    refine ⟨trivial, [], ⟨rfl, rfl⟩, ?_⟩
    rw [hus, discriminants_push, openDiscriminants]
    simp
  | field id fields =>
    obtain ⟨hclean, own, rfl, hus⟩ := h
    cases hst
    refine ⟨hclean, [], rfl, ?_⟩
    rw [hus, openDiscriminants, Frame.discriminants]
    simp
  | arm u cases isDefault =>
    obtain ⟨hclean, own, rfl, hus⟩ := h
    cases hst
    refine ⟨hclean, [], rfl, ?_⟩
    rw [hus, openDiscriminants, Frame.discriminants]
    simp
  | _ =>
    cases hst
    exact h

theorem release_carries (h : Carries st.done st.frames st.focus us) (hgood : st.Good) (hst : st.release = .ok st') :
    Carries st'.done st'.frames st'.focus us := by
  obtain ⟨done, frames, f₀⟩ := st
  obtain ⟨-, -, hfocus⟩ := hgood
  cases f₀ with
  | unsigned => exact typed_carries (h.stay fun _ => id) hst
  | suffix d =>
    obtain ⟨hne, -, hd, -⟩ := hfocus
    have hgood : (Focus.declared d).Good frames := ⟨hne, Bool.or_eq_true_iff.2 (.inr hd)⟩
    exact declared_carries (h.stay fun _ => id) hgood hst
  | fieldNext id fields => exact enter_carries (f := .field id fields) (h.stay fun _ hown => hown) hfocus hst
  | caseNext u cases => exact enter_carries (f := .arm u cases false) (h.stay fun _ => id) hfocus hst
  | procedureNext v =>
    cases hst
    exact h.stay fun _ => id
  | versionNext p =>
    cases hst
    exact h.stay fun _ hown _ => hown
  | _ =>
    cases hst
    exact h

/-! ## One token -/

theorem TypeStart.holds {l : Lexeme} (h : TypeStart l f) (frames : List Frame) : f.Holds frames [] := by
  cases h <;> rfl

theorem DeclarationStart.holds {l : Lexeme} (h : DeclarationStart l f) (frames : List Frame) : f.Holds frames [] := by
  cases h with
  | void => rfl
  | bytes | string => exact fun _ => rfl
  | type h => exact h.holds frames

theorem operandFocus_holds (h : operandFocus tok = .ok (some f)) (frames : List Frame) : f.Holds frames [] := by
  rcases operandFocus_cases h with rfl | h
  · rfl
  · exact h.holds frames

theorem definitionFocus_holds {r : List Frame × Focus} (h : definitionFocus tok = some r) :
    Clean r.1 ∧ openDiscriminants r.1 = [] ∧ r.2.Holds r.1 [] := by
  unfold definitionFocus at h
  split at h
  case h_7 => cases h
  case h_5 =>
    cases h
    exact ⟨trivial, rfl, fun id => ⟨rfl, id, rfl⟩⟩
  all_goals
    cases h
    refine ⟨?_, rfl, ?_⟩
    · trivial
    · simp [Focus.Holds, tagFocus, versionFocus, discriminantsOf, Definition.bodies, Definition.discriminant?,
        fieldBodies]

/-- a token other than `switch` adds no discriminant -/
theorem follow_carries (h : Carries st.done st.frames st.focus us) (htok : tok.lexeme ≠ .word "switch")
    (hst : st.follow tok = .ok (some (s₁, f))) : Carries s₁.done s₁.frames f us := by
  obtain ⟨done, frames, focus⟩ := st
  let P : State → Focus → Prop := fun s f => Carries s.done s.frames f us
  cases focus with
  | punct p next => exact of_follow_if (P := P) hst (fun _ => h.stay fun _ hown => hown) of_follow_refuse
  | keyword w next =>
    refine of_follow_if (P := P) hst (fun hw => h.stay fun own hown => ?_) of_follow_refuse
    rw [hw, Ne, Lexeme.word.injEq] at htok
    simpa [Focus.Holds, htok] using hown
  | name role next => exact of_follow_map (P := P) hst fun n _ => h.stay fun _ hown => hown n
  | value next => exact of_follow_map (P := P) hst fun v _ => h.stay fun _ hown => hown v
  | definition =>
    obtain ⟨hclean, own, ⟨hnil, rfl⟩, hus⟩ := h
    obtain rfl : frames = [] := hnil
    obtain ⟨r, hr, heq⟩ := Option.map_eq_some_iff.1 (Except.ok.inj hst)
    cases heq
    obtain ⟨hclean, hopen, hholds⟩ := definitionFocus_holds hr
    refine ⟨hclean, [], hholds, ?_⟩
    rw [hus, hopen]
    rfl
  | tagNext id tags =>
    refine of_follow_if (P := P) hst (fun _ => h.stay fun own hown _ _ => hown) fun hst => ?_
    refine of_follow_if (P := P) hst (fun _ => h.stay fun own hown => ?_) of_follow_refuse
    obtain rfl : own = [] := hown
    rfl
  | armNext u =>
    refine of_follow_if (P := P) hst (fun _ => h.stay fun _ hown => ?_) fun hst => ?_
    · exact hown
    refine of_follow_if (P := P) hst (fun _ => h.stay fun _ hown _ => hown) fun hst => ?_
    refine of_follow_if (P := P) hst (fun _ => h.stay fun own hown => ?_) of_follow_refuse
    exact hown.trans (discriminants_close u).symm
  | declaration =>
    refine of_follow_focus (P := P) hst fun g hg => h.stay fun own hown => ?_
    exact hown ▸ (declarationFocus_cases hg).holds frames
  | discriminant id =>
    obtain ⟨-, own, hown, -⟩ := h
    exact hown.elim
  | operand slot =>
    refine of_follow_focus (P := P) hst fun g hg => ?_
    obtain ⟨hclean, own, rfl, hus⟩ := h
    refine ⟨hclean, [], operandFocus_holds hg _, ?_⟩
    rw [hus]
    simp [openDiscriminants, Frame.discriminants]
  | enumType =>
    refine of_follow_if (P := P) hst (fun _ => h.stay fun _ hown _ _ => hown) fun hst => ?_
    exact of_follow_map (P := P) hst fun n _ => h.stay fun _ hown => hown
  | structType =>
    refine of_follow_if (P := P) hst (fun _ => h.stay fun _ hown => hown) fun hst => ?_
    exact of_follow_map (P := P) hst fun n _ => h.stay fun _ hown => hown
  | unionType =>
    refine of_follow_if (P := P) hst (fun hl => absurd hl htok) fun hst => ?_
    exact of_follow_map (P := P) hst fun n _ => h.stay fun _ hown => hown
  | declarator t =>
    have hbodies : ∀ id q own, (Focus.declarator t).Holds frames own →
        (Focus.declared (t.decl id q)).Holds frames own := fun id q own hown => by
      rw [Focus.Holds, decl_bodies]
      exact hown
    refine of_follow_if (P := P) hst (fun _ => h.stay fun own hown id => hbodies id _ own hown) fun hst => ?_
    exact of_follow_map (P := P) hst fun n _ => h.stay fun own hown => hbodies n _ own hown
  | opaqueSuffix id =>
    refine of_follow_if (P := P) hst (fun _ => h.stay fun _ hown _ => hown) fun hst => ?_
    exact of_follow_if (P := P) hst (fun _ => h.stay fun _ hown => hown) of_follow_refuse
  | limit d =>
    refine of_follow_if (P := P) hst (fun _ => h.stay fun _ hown => hown) fun hst => ?_
    refine of_follow_map (P := P) hst fun v _ => h.stay fun own hown => ?_
    rw [Focus.Holds, Focus.Holds, bodies_qualified d d.qualifier v]
    exact hown
  | argumentNext v result id args =>
    refine of_follow_if (P := P) hst (fun _ => h.stay fun _ hown => hown) fun hst => ?_
    exact of_follow_if (P := P) hst (fun _ => h.stay fun _ hown _ => hown) of_follow_refuse
  | unsigned =>
    refine of_follow_if (P := P) hst (fun _ => h.stay fun _ hown => hown) fun hst => ?_
    exact of_follow_if (P := P) hst (fun _ => h.stay fun _ hown => hown) of_follow_refuse
  | suffix d =>
    refine of_follow_if (P := P) hst (fun _ => h.stay fun own hown v => ?_) fun hst => ?_
    · rw [Focus.Holds, Focus.Holds, bodies_qualified d .array v]
      exact hown
    · refine of_follow_if (P := P) hst (fun _ => h.stay fun own hown => ?_) of_follow_refuse
      rw [Focus.Holds, bodies_qualified d .vec d.bound]
      exact hown
  | fieldNext id fields =>
    refine of_follow_if (P := P) hst (fun _ => h.stay fun own hown => ?_) of_follow_refuse
    rw [Focus.Holds, Definition.bodies]
    exact hown
  | caseNext u cases =>
    exact of_follow_if (P := P) hst (fun _ => h.stay fun _ hown _ => hown) of_follow_refuse
  | procedureNext v | versionNext p =>
    exact of_follow_if (P := P) hst (fun _ => h.stay fun _ hown _ => hown) of_follow_refuse
  | typed | declared | built | defined | field | arm => cases hst

theorem focus_of_switch (h : tok.lexeme = .word "switch") :
    declarationFocus tok = .ok none ∧ operandFocus tok = .ok none := by
  obtain ⟨hdeclaration, hoperand⟩ := declarationFocus_eq (by decide) h
  have htype : typeFocus tok = .ok none := by
    unfold typeFocus
    rw [h]
    rfl
  exact ⟨hdeclaration.trans htype, hoperand.trans htype⟩

/-- a focus keeps a token or gives it up, and holds the same -/
theorem kept_carries (h : Carries st.done st.frames st.focus us) (hgood : st.Good)
    (hst : (if keeps st.focus tok.lexeme then .ok st else st.release) = .ok s) :
    Carries s.done s.frames s.focus us ∧ s.Good := by
  split_ifs at hst
  · cases hst
    exact ⟨h, hgood⟩
  · exact ⟨release_carries h hgood hst, release_good hgood hst⟩

/-- the word `switch` is taken behind the word `union` and a name, or behind the word alone -/
theorem follow_switch (h : Carries st.done st.frames st.focus us) (htok : tok.lexeme = .word "switch")
    (hst : st.follow tok = .ok (some (s₁, f))) : s₁ = st ∧ Clean st.frames ∧
      us = discriminants st.done.toList ++ openDiscriminants st.frames ∧
      ∃ id, f = .punct .lparen (.discriminant id) := by
  obtain ⟨done, frames, focus⟩ := st
  obtain ⟨hclean, own, hown, hus⟩ := h
  cases focus with
  | keyword w next =>
    simp only [State.follow, htok] at hst
    split_ifs at hst with hw
    · obtain rfl : "switch" = w := Lexeme.word.inj hw
      cases hst
      obtain ⟨rfl, hnext⟩ := hown
      rw [List.append_nil] at hus
      exact ⟨rfl, hclean, hus, hnext⟩
    · cases hst
  | unionType =>
    obtain rfl : own = [] := hown
    simp only [State.follow, htok, if_true] at hst
    cases hst
    rw [List.append_nil] at hus
    exact ⟨rfl, hclean, hus, "", rfl⟩
  | definition => simp [State.follow, definitionFocus, htok] at hst
  | declaration | discriminant id => simp [State.follow, (focus_of_switch htok).1, Except.map] at hst
  | operand slot => simp [State.follow, (focus_of_switch htok).2, Except.map] at hst
  | typed | declared | built | defined | field | arm => cases hst
  | _ =>
    -- no other focus takes the word
    have hname : asName (.word "switch") = none := rfl
    have hvalue : asValue (.word "switch") = none := rfl
    simp [State.follow, htok, hname, hvalue] at hst

theorem step_carries (h : Carries st.done st.frames st.focus us) (hgood : st.Good)
    (hspelled : tok.lexeme.wellSpelled = true) (htok : tok.lexeme ≠ .word "switch") (hst : st.step tok = .ok st') :
    Carries st'.done st'.frames st'.focus us := by
  obtain ⟨s, s₁, f, hs, hfollow, henter⟩ := exists_of_step hst
  obtain ⟨hcarries, hgood⟩ := kept_carries h hgood hs
  obtain ⟨-, -, hf⟩ := follow_good hgood.frames hgood.focus hspelled hfollow
  exact enter_carries (follow_carries hcarries htok hfollow) hf henter

/-- behind the word `switch` a discriminant is read, and nothing is held -/
theorem step_switch (h : Carries st.done st.frames st.focus us) (hgood : st.Good) (htok : tok.lexeme = .word "switch")
    (hst : st.step tok = .ok st') : Clean st'.frames ∧
      us = discriminants st'.done.toList ++ openDiscriminants st'.frames ∧
      ∃ id, st'.focus = .punct .lparen (.discriminant id) := by
  obtain ⟨s, s₁, f, hs, hfollow, henter⟩ := exists_of_step hst
  obtain ⟨rfl, hclean, hus, id, rfl⟩ := follow_switch (kept_carries h hgood hs).1 htok hfollow
  cases henter
  exact ⟨hclean, hus, id, rfl⟩

/-! ## All tokens -/

/-- the discriminant of a union is declared at the start of these lexemes -/
def DeclaredBy (ls : List Lexeme) (u : String × String) : Prop :=
  ∃ ws rest, ls = .punct .lparen :: ws ++ .punct .rparen :: .punct .lbrace :: rest ∧ TagDeclaration ws u.1 u.2

/-- a union begins where its discriminant has been read -/
theorem exists_union (h : State.EndsBy ⟨done, frames, .punct .lparen (.discriminant id)⟩ toks last) :
    ∃ ts rest tagId tagType, toks = ts ++ rest ∧ (∃ ws, TagDeclaration ws tagId tagType ∧
      ts.map Token.lexeme = .punct .lparen :: ws ++ [.punct .rparen, .punct .lbrace]) ∧
      State.EndsBy ⟨done, frames, .armNext { id, tagId, tagType }⟩ rest last := by
  obtain ⟨tok, toks, s, rfl, hopen, henter, hends⟩ := h.punct
  cases henter
  obtain ⟨ts, rest, tagId, tagType, rfl, hdecl, hends⟩ := exists_tagDeclaration hends
  obtain ⟨tok₁, toks, s, rfl, hclose, henter, hends⟩ := hends.punct
  cases henter
  obtain ⟨tok₂, toks, s, rfl, hbrace, henter, hends⟩ := hends.punct
  cases henter
  refine ⟨tok :: ts ++ [tok₁, tok₂], toks, tagId, tagType, by simp, ⟨_, hdecl, ?_⟩, hends⟩
  simp [hopen, hclose, hbrace]

theorem run_carries (h : Carries st.done st.frames st.focus us) (hgood : st.Good)
    (htoks : ∀ tok ∈ toks, tok.lexeme.wellSpelled = true) (hends : st.EndsBy toks last) :
    ∃ vs, List.Forall₂ DeclaredBy (switched (toks.map Token.lexeme)) vs ∧
      discriminants last.done.toList = us ++ vs := by
  -- by the number of tokens, as those of a discriminant are taken at once
  induction hlen : toks.length using Nat.strongRecOn generalizing toks st us with
  | _ len ih =>
    rcases toks with _ | ⟨tok, toks⟩
    · obtain ⟨hrun, hfocus⟩ := hends
      cases hrun
      obtain ⟨-, own, hown, hus⟩ := h
      rw [hfocus] at hown
      obtain ⟨hnil, rfl⟩ := hown
      refine ⟨[], .nil, ?_⟩
      rw [hus, hnil]
      simp [openDiscriminants]
    rw [List.forall_mem_cons] at htoks
    obtain ⟨hrun, hfocus⟩ := hends
    rw [run_cons] at hrun
    obtain ⟨s, hstep, hrun⟩ := of_bind_eq_ok hrun
    have hs : s.Good := step_good hgood htoks.1 hstep
    by_cases htok : tok.lexeme = .word "switch"
    · obtain ⟨hclean, hus, id, hs₁⟩ := step_switch h hgood htok hstep
      obtain ⟨done, frames, focus⟩ := s
      obtain rfl : focus = .punct .lparen (.discriminant id) := hs₁
      obtain ⟨ts, rest, tagId, tagType, rfl, ⟨ws, hdecl, hts⟩, hends⟩ := exists_union ⟨hrun, hfocus⟩
      have hwords : ∀ l ∈ ws, l.wellSpelled = true := by
        intro l hl
        have hmem : l ∈ ts.map Token.lexeme := by
          rw [hts]
          simp [hl]
        obtain ⟨tok', htok', rfl⟩ := List.mem_map.1 hmem
        exact htoks.2 tok' (List.mem_append_left _ htok')
      obtain ⟨hid, htype⟩ := hdecl.good hwords
      have hopen : State.Good ⟨done, frames, .armNext { id, tagId, tagType }⟩ :=
        ⟨hs.done, hs.frames, hs.focus, hid, htype, rfl, rfl⟩
      have hcarries : Carries done frames (.armNext { id, tagId, tagType }) (us ++ [(tagId, tagType)]) :=
        ⟨hclean, _, rfl, by rw [hus]; rfl⟩
      have hlt : rest.length < len := by
        rw [← hlen, List.length_cons, List.length_append]
        omega
      obtain ⟨vs, hvs, hall⟩ := ih _ hlt hcarries hopen
        (fun tok' htok' => htoks.2 tok' (List.mem_append_right _ htok')) hends rfl
      refine ⟨(tagId, tagType) :: vs, ?_, by rw [hall, List.append_assoc]; rfl⟩
      rw [List.map_cons, htok, List.map_append, switched, if_pos rfl, hts]
      refine .cons ⟨ws, rest.map Token.lexeme, by simp, hdecl⟩ ?_
      rw [switched_append _ _]
      · exact hvs
      · refine List.forall_mem_cons.2 ⟨by decide, List.forall_mem_append.2 ⟨hdecl.ne_switch, by decide⟩⟩
    · rw [List.map_cons, switched_cons_of_ne htok]
      exact ih toks.length (by rw [← hlen]; exact Nat.lt_succ_self _)
        (step_carries h hgood htoks.1 htok hstep) hs htoks.2 ⟨hrun, hfocus⟩ rfl

end Grammar

open Grammar

/-- **The unions of a text have the discriminants that stand in it.** Behind each word `switch` of an accepted text
stands, in parentheses, a named type and a name, or a string; so any other declaration is refused there. The unions of
the definitions that are read, at any depth, have these names and these types, one for each word and in this order. -/
theorem discriminants_as_declared {source : String} {s : Scanned} (hscan : scan source = .ok s) {ds : List Definition}
    (hparse : parse s.tokens = .ok ds) :
    List.Forall₂ DeclaredBy (switched (s.tokens.map Token.lexeme)) (discriminants ds) := by
  obtain ⟨st, hrun, hfocus, rfl⟩ := parse_eq_ok_iff.1 hparse
  have hcarries : Carries State.start.done State.start.frames State.start.focus [] := ⟨trivial, [], ⟨rfl, rfl⟩, rfl⟩
  obtain ⟨vs, hvs, hall⟩ := run_carries hcarries start_good (wellSpelled_of_mem_scan hscan) ⟨hrun, hfocus⟩
  rw [hall]
  exact hvs

/-- a union in a struct, and one that is selected by a string -/
def switchSource : String :=
  "struct S \x7b union switch (unsigned t) \x7b case 1: int a; \x7d u; \x7d; " ++
    "union V switch (string s<5>) \x7b default: void; \x7d;"

def switchDefinitions : List Definition :=
  [.struct "S" [⟨"u", "", .scalar, "",
      some (.union "" "t" "unsigned int" [⟨["1"], false, ⟨"a", "int", .scalar, "", none⟩⟩] false)⟩],
    .union "V" "s" "string" [⟨[], true, .void⟩] true]

theorem discriminants_as_declared_sample : ∃ s, scan switchSource = .ok s ∧ parse s.tokens = .ok switchDefinitions ∧
    List.Forall₂ DeclaredBy (switched (s.tokens.map Token.lexeme)) [("t", "unsigned int"), ("s", "string")] := by
  have hread : ((scan switchSource).bind fun s => parse s.tokens) = .ok switchDefinitions := by cbv
  obtain ⟨s, hscan, hparse⟩ := of_bind_eq_ok hread
  exact ⟨s, hscan, hparse, discriminants_as_declared hscan hparse⟩

/-- a union that is selected by a string, as it is read -/
def stringUnion : Definition := .union "U" "s" "string" [⟨["1"], false, ⟨"a", "int", .scalar, "", none⟩⟩] false

/-- **A string is accepted for a discriminant, and its bound is dropped**: with one bound or another, or none, the same
union is read. -/
theorem bound_dropped :
    ((scan "union U switch (string s<5>) \x7b case 1: int a; \x7d;").bind fun s => parse s.tokens) =
      .ok [stringUnion] ∧
    ((scan "union U switch (string s<7>) \x7b case 1: int a; \x7d;").bind fun s => parse s.tokens) =
      .ok [stringUnion] ∧
    ((scan "union U switch (string s<>) \x7b case 1: int a; \x7d;").bind fun s => parse s.tokens) =
      .ok [stringUnion] := by
  refine ⟨?_, ?_, ?_⟩ <;> cbv

end Xdr
