/-
The grammar builds grammatical definitions only.

`State.Good` says what a state may hold: finished parts are grammatical, unfinished ones become so however the next
tokens complete them, and a body has a name exactly when no declaration encloses it. One token keeps that
(`step_good`), so every run does (`run_good`).
- `grammatical_of_parse`: definitions made up of tokens that a text can hold are grammatical.
-/
import Xdr.Proofs.Grammar.Steps

namespace Xdr.Grammar

open State

/-! ## The invariant -/

/-- the name of a body: its own at the top level, none inside of a declaration -/
def Placed (frames : List Frame) (id : String) : Prop := if frames = [] then isName id = true else id = ""

def TypeSpec.Good : TypeSpec → Prop
  | .named n => isTypeName n = true
  | .body d => d.isBody = true ∧ d.id = "" ∧ d.grammaticalBody = true

structure OpenUnion.Good (u : OpenUnion) : Prop where
  tag : isName u.tagId = true
  type : isDiscriminantType u.tagType = true
  hasDefault : u.hasDefault = u.arms.any Arm.isDefault
  arms : grammaticalArms u.arms = true

structure OpenProgram.Good (p : OpenProgram) : Prop where
  id : isName p.id = true
  versions : ∀ v ∈ p.versions, v.grammatical = true

structure OpenVersion.Good (v : OpenVersion) : Prop where
  program : v.program.Good
  id : isName v.id = true
  procedures : ∀ p ∈ v.procedures, p.grammatical = true

def Slot.Good : Slot → Prop
  | .result v => v.Good
  | .argument v res id args =>
    v.Good ∧ isOperand res = true ∧ isName id = true ∧ ∀ a ∈ args, isOperand a = true

/-- a frame on top of others -/
def Frame.Good (rest : List Frame) : Frame → Prop
  | .alias _ => True
  | .field id fields => Placed rest id ∧ grammaticalFields fields = true
  | .discriminant id _ => Placed rest id
  | .arm u cases isDefault => Placed rest u.id ∧ u.Good ∧ labelled cases isDefault = true
  | .operand _ slot => rest = [] ∧ slot.Good

def FramesGood : List Frame → Prop
  | [] => True
  | fr :: rest => fr.Good rest ∧ FramesGood rest

/-- every bound that its qualifier takes makes a declaration of it -/
def Bounded (d : Decl) (q : Qualifier) : Prop :=
  ∀ bound, q.takes bound = true → Decl.grammatical { d with qualifier := q, bound := bound } = true

/-- what may be read from here on under these frames -/
def Focus.Good (frames : List Frame) : Focus → Prop
  | .punct _ next => next.Good frames
  | .keyword _ next => next.Good frames
  | .name _ next => ∀ s, isName s = true → (next s).Good frames
  | .value next => ∀ v, isValue v = true → (next v).Good frames
  | .definition => True
  | .tagNext id tags => Placed frames id ∧ tags ≠ [] ∧ ∀ t ∈ tags, t.grammatical = true
  | .armNext u => Placed frames u.id ∧ u.Good
  | .declaration => frames ≠ []
  | .discriminant id => Placed frames id
  | .enumType => frames ≠ []
  | .structType => frames ≠ []
  | .unionType => frames ≠ []
  | .declarator t => frames ≠ [] ∧ t.Good
  | .opaqueSuffix id => frames ≠ [] ∧ isName id = true
  | .limit d => frames ≠ [] ∧ d.bound = "" ∧
    ∀ bound, Qualifier.vec.takes bound = true → Decl.grammatical { d with bound := bound } = true
  | .operand slot => frames = [] ∧ slot.Good
  | .argumentNext v result id args => frames = [] ∧ args ≠ [] ∧ (Slot.argument v result id args).Good
  | .unsigned => frames ≠ []
  | .suffix d => frames ≠ [] ∧ d.bound = "" ∧ d.grammatical = true ∧
    Bounded d .array ∧ Bounded d .vec
  | .fieldNext id fields => Placed frames id ∧ grammaticalFields fields = true
  | .caseNext u cases => Placed frames u.id ∧ u.Good ∧ labelled cases false = true
  | .procedureNext v => frames = [] ∧ v.Good ∧ v.procedures ≠ []
  | .versionNext p => frames = [] ∧ p.Good ∧ p.versions ≠ []
  | .typed t => frames ≠ [] ∧
    (t.Good ∨ t = .named Primitive.void.idlName ∧ ∃ start slot rest, frames = .operand start slot :: rest)
  | .declared d => frames ≠ [] ∧ (d.isNothing || d.grammatical) = true
  | .built d => if frames = [] then d.grammatical = true else (TypeSpec.body d).Good
  | .defined d => d.grammatical = true
  | .field id fields => Placed frames id ∧ grammaticalFields fields = true
  | .arm u cases isDefault => Placed frames u.id ∧ u.Good ∧ labelled cases isDefault = true

structure State.Good (st : State) : Prop where
  done : ∀ d ∈ st.done, d.grammatical = true
  frames : FramesGood st.frames
  focus : st.focus.Good st.frames

variable {st st' : State} {done : Array Definition} {frames : List Frame} {f : Focus} {tok : Token}

/-! ## Arriving -/

theorem slotFocus_good {name : String} {slot : Slot} (hn : isOperand name = true) (hs : slot.Good) :
    (slotFocus name slot).Good [] := by
  cases slot with
  | result v => exact fun id hid => ⟨rfl, hs, hn, hid, nofun⟩
  | argument v result id args =>
    obtain ⟨hv, hresult, hid, hargs⟩ := hs
    refine ⟨rfl, by simp, hv, hresult, hid, fun a ha => ?_⟩
    rcases List.mem_append.1 ha with ha | ha
    · exact hargs a ha
    · rwa [List.mem_singleton.1 ha]

theorem typed_good {t : TypeSpec} (hdone : ∀ d ∈ done, d.grammatical = true) (hframes : FramesGood frames)
    (ht : (Focus.typed t).Good frames) {f₀ : Focus} (h : State.typed ⟨done, frames, f₀⟩ t = .ok st') : st'.Good := by
  obtain ⟨hne, ht⟩ := ht
  obtain ⟨fr, rest, rfl⟩ := List.exists_cons_of_ne_nil hne
  obtain ⟨hfr, hrest⟩ := hframes
  cases fr with
  | operand start slot =>
    obtain ⟨rfl, hslot⟩ := hfr
    cases t with
    | body d => cases h
    | named n =>
      cases h
      have hn : isOperand n = true := by
        rcases ht with ht | ⟨ht, -⟩
        · exact Bool.or_eq_true_iff.2 (.inr ht)
        · cases ht
          decide
      exact ⟨hdone, trivial, slotFocus_good hn hslot⟩
  | _ =>
    obtain ht | ⟨-, _, _, _, hcons⟩ := ht
    · cases h
      exact ⟨hdone, ⟨hfr, hrest⟩, hne, ht⟩
    · cases hcons

theorem discriminantType_of_isDiscriminant {d : Decl} (hd : isDiscriminant d = true) (hg : d.grammatical = true) :
    isDiscriminantType d.typeName = true := by
  obtain ⟨id, type, q, bound, body⟩ := d
  simp only [isDiscriminant, Decl.isInline, Bool.and_eq_true, Bool.not_eq_true', beq_iff_eq, beq_eq_false_iff_ne] at hd
  obtain ⟨⟨-, htype⟩, rfl⟩ := hd
  cases body with
  | none =>
    simp only [Decl.grammatical, Bool.and_eq_true] at hg
    exact isDiscriminantType_of_isNamedUse hg.2
  | some b =>
    simp only [Decl.grammatical, Bool.and_eq_true, beq_iff_eq] at hg
    exact absurd hg.1.1.1.1.2 htype

theorem declared_good {d : Decl} (hdone : ∀ d ∈ done, d.grammatical = true) (hframes : FramesGood frames)
    (hd : (Focus.declared d).Good frames) {f₀ : Focus} (h : State.declared ⟨done, frames, f₀⟩ d = .ok st') :
    st'.Good := by
  obtain ⟨hne, hd⟩ := hd
  obtain ⟨fr, rest, rfl⟩ := List.exists_cons_of_ne_nil hne
  obtain ⟨hfr, hrest⟩ := hframes
  have hvalue : d.isVoid = false → d.grammatical = true := by
    intro hv
    refine (Bool.or_eq_true_iff.1 hd).resolve_left fun hn => ?_
    rw [Decl.eq_void_of_isNothing hn] at hv
    cases hv
  cases fr with
  | «alias» keyword =>
    simp only [declared] at h
    split_ifs at h with hv
    cases h
    have hd := hvalue (Bool.eq_false_iff.2 hv)
    exact ⟨hdone, hrest, Definition.grammatical_typedef hd⟩
  | field id fields =>
    cases h
    refine ⟨hdone, hrest, hfr.1, ?_⟩
    cases hv : d.isVoid with
    | true => exact hfr.2
    | false => exact grammaticalFields_concat hfr.2 (hvalue hv)
  | discriminant id start =>
    simp only [declared] at h
    split_ifs at h with hd
    cases h
    have hg := hvalue (by simp only [isDiscriminant, Bool.and_eq_true, Bool.not_eq_true'] at hd; exact hd.1.1)
    exact ⟨hdone, hrest, hfr, Decl.isName_of_grammatical hg, discriminantType_of_isDiscriminant hd hg, rfl, rfl⟩
  | arm u cases isDefault =>
    obtain ⟨hplace, hu, hlabels⟩ := hfr
    cases h
    have harm : Arm.grammatical ⟨cases, isDefault, d⟩ = true := Bool.and_eq_true_iff.2 ⟨hlabels, hd⟩
    exact ⟨hdone, hrest, hplace, hu.tag, hu.type, by simp [OpenUnion.addArm, hu.hasDefault],
      grammaticalArms_concat hu.arms harm⟩
  | operand start slot => cases h

theorem built_good {d : Definition} (hdone : ∀ d ∈ done, d.grammatical = true) (hframes : FramesGood frames)
    (hd : (Focus.built d).Good frames) {f₀ : Focus} (h : State.built ⟨done, frames, f₀⟩ d = .ok st') : st'.Good := by
  cases frames with
  | nil =>
    cases h
    exact ⟨hdone, trivial, hd⟩
  | cons fr rest =>
    have hne : fr :: rest ≠ [] := List.cons_ne_nil fr rest
    exact typed_good hdone hframes ⟨hne, .inl (by simpa [Focus.Good, hne] using hd)⟩ h

theorem enter_good (hdone : ∀ d ∈ st.done, d.grammatical = true) (hframes : FramesGood st.frames)
    (hf : f.Good st.frames) (h : st.enter f = .ok st') : st'.Good := by
  obtain ⟨done, frames, f₀⟩ := st
  cases f with
  | typed t => exact typed_good hdone hframes hf h
  | declared d => exact declared_good hdone hframes hf h
  | built d => exact built_good hdone hframes hf h
  | defined d =>
    cases h
    refine ⟨fun e he => ?_, hframes, trivial⟩
    rcases Array.mem_push.1 he with he | rfl
    · exact hdone e he
    · exact hf
  | field id fields =>
    cases h
    exact ⟨hdone, ⟨hf, hframes⟩, List.cons_ne_nil _ _⟩
  | arm u cases isDefault =>
    cases h
    exact ⟨hdone, ⟨hf, hframes⟩, List.cons_ne_nil _ _⟩
  | _ =>
    cases h
    exact ⟨hdone, hframes, hf⟩

/-! ## Taking a token -/

theorem isName_of_asName {l : Lexeme} {s : String} (hl : l.wellSpelled = true) (h : asName l = some s) :
    isName s = true := by
  cases l with
  | word w =>
    simp only [asName] at h
    split_ifs at h with hr
    cases h
    exact Bool.and_eq_true_iff.2 ⟨hl, by simp [hr]⟩
  | number n => cases h
  | punct p => cases h

theorem isValue_of_asValue {l : Lexeme} {v : String} (hl : l.wellSpelled = true) (h : asValue l = some v) :
    isValue v = true := by
  cases l with
  | number n =>
    cases h
    exact Bool.or_eq_true_iff.2 (.inl hl)
  | word w => exact Bool.or_eq_true_iff.2 (.inr (isName_of_asName hl h))
  | punct p => cases h

/-- the first word of a type, inside of a declaration -/
theorem TypeStart.good {l : Lexeme} (h : TypeStart l f) (hl : l.wellSpelled = true) (hne : frames ≠ []) :
    f.Good frames := by
  cases h with
  | unsigned | enum | struct | union => exact hne
  | basic _ hw => exact ⟨hne, .inl (isTypeName_of_basic hw)⟩
  | named hn => exact ⟨hne, .inl (Bool.or_eq_true_iff.2 (.inr (isName_of_asName hl hn)))⟩

theorem DeclarationStart.good {l : Lexeme} (h : DeclarationStart l f) (hl : l.wellSpelled = true) (hne : frames ≠ []) :
    f.Good frames := by
  cases h with
  | void => exact ⟨hne, rfl⟩
  | bytes => exact fun id hid => ⟨hne, hid⟩
  | string => exact fun id hid => ⟨hne, rfl, fun bound hb => by simp [Decl.grammatical, isNamedUse, hid, hb]⟩
  | type h => exact h.good hl hne

theorem operandFocus_good {start : Position} {slot : Slot} (htok : tok.lexeme.wellSpelled = true)
    (h : operandFocus tok = .ok (some f)) : f.Good (.operand start slot :: frames) := by
  rcases operandFocus_cases h with rfl | h
  · exact ⟨List.cons_ne_nil _ _, .inr ⟨rfl, _, _, _, rfl⟩⟩
  · exact h.good htok (List.cons_ne_nil _ _)

theorem tagFocus_good {id : String} {tags : List EnumTag} (hid : Placed frames id)
    (htags : ∀ t ∈ tags, t.grammatical = true) : (tagFocus id tags).Good frames := by
  intro name hname value hvalue
  refine ⟨hid, by simp, fun t ht => ?_⟩
  rcases List.mem_append.1 ht with ht | ht
  · exact htags t ht
  · rw [List.mem_singleton.1 ht]
    exact Bool.and_eq_true_iff.2 ⟨hname, hvalue⟩

theorem versionFocus_good {p : OpenProgram} (hp : p.Good) : (versionFocus p).Good [] :=
  fun _ hid => ⟨rfl, hp, hid, nofun⟩

theorem definitionFocus_good {r : List Frame × Focus} (h : definitionFocus tok = some r) :
    FramesGood r.1 ∧ r.2.Good r.1 := by
  unfold definitionFocus at h
  split at h
  · cases h
    exact ⟨trivial, fun id hid v hv => Bool.and_eq_true_iff.2 ⟨hid, hv⟩⟩
  · cases h
    exact ⟨⟨trivial, trivial⟩, List.cons_ne_nil _ _⟩
  · cases h
    exact ⟨trivial, fun id hid => tagFocus_good hid nofun⟩
  · cases h
    exact ⟨trivial, fun id hid => ⟨hid, rfl⟩⟩
  · cases h
    exact ⟨trivial, fun id hid => hid⟩
  · cases h
    exact ⟨trivial, fun id hid => versionFocus_good ⟨hid, nofun⟩⟩
  · cases h

/-- a body that is complete is one of its own, or the body of a declaration -/
theorem built_of_placed {d : Definition} (hid : Placed frames d.id) (hb : d.isBody = true)
    (hd : d.grammaticalBody = true) : (Focus.built d).Good frames := by
  unfold Placed at hid
  unfold Focus.Good
  split_ifs at hid ⊢
  · exact Bool.and_eq_true_iff.2 ⟨hid, hd⟩
  · exact ⟨hb, hid, hd⟩

theorem placed_empty (hne : frames ≠ []) : Placed frames "" := (if_neg hne).mpr rfl

/-- a token leads to a state and a focus that keep the invariant -/
def Leads (s st₁ : State) (f : Focus) : Prop := st₁.done = s.done ∧ FramesGood st₁.frames ∧ f.Good st₁.frames

variable {s st₁ : State} {g : Focus} {r : Except SourceError (Option (State × Focus))}

theorem leads_of_refuse
    (h : (.ok none : Except SourceError (Option (State × Focus))) = .ok (some (st₁, f))) : Leads s st₁ f :=
  of_follow_refuse h

theorem leads_of_if {c : Prop} [Decidable c] (h : (if c then .ok (some (s, g)) else r) = .ok (some (st₁, f)))
    (hframes : FramesGood s.frames) (hg : c → g.Good s.frames) (hr : r = .ok (some (st₁, f)) → Leads s st₁ f) :
    Leads s st₁ f :=
  of_follow_if h (fun hc => ⟨rfl, hframes, hg hc⟩) hr

/-- a focus that takes a name or a value -/
theorem leads_of_map {α : Type} {o : Option α} {next : α → Focus}
    (h : (.ok (o.map fun a => (s, next a)) : Except SourceError (Option (State × Focus))) = .ok (some (st₁, f)))
    (hframes : FramesGood s.frames) (hg : ∀ a, o = some a → (next a).Good s.frames) : Leads s st₁ f :=
  of_follow_map h fun a ha => ⟨rfl, hframes, hg a ha⟩

/-- a focus that takes the first word of a type -/
theorem leads_of_focus {r : Except SourceError (Option Focus)}
    (h : (r.map fun o => o.map fun g => (s, g)) = .ok (some (st₁, f))) (hframes : FramesGood s.frames)
    (hg : ∀ g, r = .ok (some g) → g.Good s.frames) : Leads s st₁ f :=
  of_follow_focus h fun g hr => ⟨rfl, hframes, hg g hr⟩

theorem declarator_good {t : TypeSpec} {id : String} (ht : t.Good) (hid : isName id = true) (q : Qualifier) :
    Bounded (t.decl id .scalar) q := by
  intro bound hq
  cases t with
  | named n =>
    have hs : n ≠ Primitive.string.idlName := by
      rintro rfl
      exact absurd ht (show ¬ isTypeName _ = true by decide)
    have ho : n ≠ Primitive.opaqueBytes.idlName := by
      rintro rfl
      exact absurd ht (show ¬ isTypeName _ = true by decide)
    have ht : isTypeName n = true := ht
    simp [TypeSpec.decl, Decl.grammatical, isNamedUse, hs, ho, ht, hid, hq]
  | body d =>
    obtain ⟨hb, hd, hg⟩ := ht
    simp [TypeSpec.decl, Decl.grammatical, hid, hq, hb, hd, hg]

theorem decl_eq (t : TypeSpec) (id : String) (q : Qualifier) :
    t.decl id q = { t.decl id .scalar with qualifier := q, bound := "" } := by
  cases t <;> rfl

theorem opaque_good {id bound : String} {q : Qualifier} (hid : isName id = true) (hq : q = .array ∨ q = .vec)
    (hb : q.takes bound = true) :
    Decl.grammatical { id, typeName := Primitive.opaqueBytes.idlName, qualifier := q, bound } = true := by
  have hs : Primitive.opaqueBytes.idlName ≠ Primitive.string.idlName := by decide
  rcases hq with rfl | rfl <;> simp [Decl.grammatical, isNamedUse, hs, hid, hb]

theorem follow_good {focus : Focus} (hframes : FramesGood frames) (hfocus : focus.Good frames)
    (htok : tok.lexeme.wellSpelled = true) (h : State.follow ⟨done, frames, focus⟩ tok = .ok (some (st₁, f))) :
    Leads ⟨done, frames, focus⟩ st₁ f := by
  have hname : ∀ n, asName tok.lexeme = some n → isName n = true := fun n => isName_of_asName htok
  have hvalue : ∀ v, asValue tok.lexeme = some v → isValue v = true := fun v => isValue_of_asValue htok
  have htype : ∀ n, asName tok.lexeme = some n → (TypeSpec.named n).Good := fun n hn =>
    Bool.or_eq_true_iff.2 (.inr (hname n hn))
  cases focus with
  | punct p next => exact leads_of_if h hframes (fun _ => hfocus) leads_of_refuse
  | keyword w next => exact leads_of_if h hframes (fun _ => hfocus) leads_of_refuse
  | name role next => exact leads_of_map h hframes fun n hn => hfocus n (hname n hn)
  | value next => exact leads_of_map h hframes fun v hv => hfocus v (hvalue v hv)
  | definition =>
    simp only [follow] at h
    cases hr : definitionFocus tok with
    | none => simp [hr] at h
    | some r =>
      simp only [hr, Option.map_some, Except.ok.injEq, Option.some.injEq, Prod.mk.injEq] at h
      obtain ⟨rfl, rfl⟩ := h
      exact ⟨rfl, definitionFocus_good hr⟩
  | tagNext id tags =>
    obtain ⟨hid, hne, htags⟩ := hfocus
    refine leads_of_if h hframes (fun _ => tagFocus_good hid htags) fun h => leads_of_if h hframes (fun _ => ?_)
      leads_of_refuse
    exact built_of_placed hid rfl (by simpa [Definition.grammaticalBody, hne] using htags)
  | armNext u =>
    obtain ⟨hid, hu⟩ := hfocus
    refine leads_of_if h hframes (fun _ => ⟨hid, hu, rfl⟩) fun h => leads_of_if h hframes (fun _ v hv => ?_) fun h =>
      leads_of_if h hframes (fun hb => built_of_placed hid rfl ?_) leads_of_refuse
    · exact ⟨hid, hu, by simp [labelled, hv]⟩
    · have hne : u.arms ≠ [] := by simpa using hb.2
      simp [OpenUnion.close, Definition.grammaticalBody, hu.tag, hu.type, hne, hu.hasDefault, hu.arms]
  | declaration => exact leads_of_focus h hframes fun g hg => (declarationFocus_cases hg).good htok hfocus
  | discriminant id =>
    have hpush : FramesGood (.discriminant id tok.pos :: frames) := ⟨hfocus, hframes⟩
    exact leads_of_focus (s := ⟨done, .discriminant id tok.pos :: frames, .discriminant id⟩) h hpush fun g hg =>
      (declarationFocus_cases hg).good htok (List.cons_ne_nil _ _)
  | operand slot =>
    have hpush : FramesGood (.operand tok.pos slot :: frames) := ⟨hfocus, hframes⟩
    exact leads_of_focus (s := ⟨done, .operand tok.pos slot :: frames, .operand slot⟩) h hpush fun g hg =>
      operandFocus_good htok hg
  | enumType =>
    exact leads_of_if h hframes (fun _ => tagFocus_good (placed_empty hfocus) (List.forall_mem_nil _)) fun h =>
      leads_of_map h hframes fun n hn => ⟨hfocus, .inl (htype n hn)⟩
  | structType =>
    exact leads_of_if h hframes (fun _ => ⟨placed_empty hfocus, rfl⟩) fun h =>
      leads_of_map h hframes fun n hn => ⟨hfocus, .inl (htype n hn)⟩
  | unionType =>
    exact leads_of_if h hframes (fun _ => placed_empty hfocus) fun h =>
      leads_of_map h hframes fun n hn => ⟨hfocus, .inl (htype n hn)⟩
  | declarator t =>
    obtain ⟨hne, ht⟩ := hfocus
    refine leads_of_if h hframes (fun _ id hid => ⟨hne, ?_⟩) fun h =>
      leads_of_map h hframes fun id hn => ?_
    · rw [decl_eq, declarator_good ht hid .optional "" rfl, Bool.or_true]
    · have hid := hname id hn
      have hscalar := declarator_good ht hid .scalar "" rfl
      rw [← decl_eq] at hscalar
      have hbound : (t.decl id .scalar).bound = "" := by cases t <;> rfl
      exact ⟨hne, hbound, hscalar, declarator_good ht hid .array, declarator_good ht hid .vec⟩
  | opaqueSuffix id =>
    obtain ⟨hne, hid⟩ := hfocus
    refine leads_of_if h hframes (fun _ v hv => ⟨hne, ?_⟩) fun h =>
      leads_of_if h hframes (fun _ => ⟨hne, rfl, fun bound hb => opaque_good hid (.inr rfl) hb⟩) leads_of_refuse
    rw [opaque_good hid (.inl rfl) hv, Bool.or_true]
  | limit d =>
    obtain ⟨hne, hbound, hd⟩ := hfocus
    refine leads_of_if h hframes (fun _ => ⟨hne, ?_⟩) fun h => leads_of_map h hframes fun v hv => ⟨hne, ?_⟩
    · have hplain := hd "" rfl
      obtain ⟨id, type, q, bound, body⟩ := d
      obtain rfl : bound = "" := hbound
      rw [hplain, Bool.or_true]
    · rw [hd v (by simp [Qualifier.takes, hvalue v hv]), Bool.or_true]
  | argumentNext v result id args =>
    obtain ⟨rfl, hne, hv, hresult, hid, hargs⟩ := hfocus
    refine leads_of_if h hframes (fun _ => ⟨rfl, hv, hresult, hid, hargs⟩) fun h =>
      leads_of_if h hframes (fun _ number hn => ⟨rfl, ⟨hv.program, hv.id, ?_⟩, by simp⟩) leads_of_refuse
    have hp : Procedure.grammatical ⟨id, number, result, args⟩ = true := by
      simpa [Procedure.grammatical, hid, hn, hresult, hne] using hargs
    rw [List.forall_mem_append, List.forall_mem_singleton]
    exact ⟨hv.procedures, hp⟩
  | unsigned =>
    exact leads_of_if h hframes (fun _ => ⟨hfocus, .inl (show isTypeName _ = true by decide)⟩) fun h =>
      leads_of_if h hframes (fun _ => ⟨hfocus, .inl (show isTypeName _ = true by decide)⟩) leads_of_refuse
  | suffix d =>
    obtain ⟨hne, hbound, -, harray, hvec⟩ := hfocus
    refine leads_of_if h hframes (fun _ v hv => ⟨hne, ?_⟩) fun h =>
      leads_of_if h hframes (fun _ => ⟨hne, hbound, hvec⟩) leads_of_refuse
    rw [harray v hv, Bool.or_true]
  | fieldNext id fields =>
    exact leads_of_if h hframes (fun _ => built_of_placed hfocus.1 rfl hfocus.2) leads_of_refuse
  | caseNext u cases =>
    obtain ⟨hid, hu, hlabels⟩ := hfocus
    simp only [labelled, Bool.false_eq_true, if_false, Bool.and_eq_true] at hlabels
    exact leads_of_if h hframes (fun _ v hv => ⟨hid, hu, by simp [labelled, hlabels.2, hv]⟩) leads_of_refuse
  | procedureNext v =>
    obtain ⟨rfl, hv, hne⟩ := hfocus
    refine leads_of_if h hframes (fun _ number hn => ⟨rfl, ⟨hv.program.id, ?_⟩, by simp⟩) leads_of_refuse
    have hversion : Version.grammatical ⟨v.id, number, v.procedures⟩ = true := by
      simpa [Version.grammatical, hv.id, hn, hne] using hv.procedures
    rw [List.forall_mem_append, List.forall_mem_singleton]
    exact ⟨hv.program.versions, hversion⟩
  | versionNext p =>
    obtain ⟨rfl, hp, hne⟩ := hfocus
    refine leads_of_if h hframes (fun _ number hn => ?_) leads_of_refuse
    have hprogram : Program.grammatical ⟨p.id, number, p.versions⟩ = true := by
      simpa [Program.grammatical, hp.id, hn, hne] using hp.versions
    exact Bool.and_eq_true_iff.2 ⟨hp.id, hprogram⟩
  | _ => cases h

/-! ## Runs -/

theorem release_good (hst : st.Good) (h : st.release = .ok st') : st'.Good := by
  obtain ⟨done, frames, focus⟩ := st
  obtain ⟨hdone, hframes, hfocus⟩ := hst
  cases focus with
  | unsigned =>
    have ht : (TypeSpec.named Primitive.unsignedInt.idlName).Good := show isTypeName _ = true by decide
    exact enter_good (f := .typed (.named Primitive.unsignedInt.idlName)) hdone hframes ⟨hfocus, .inl ht⟩ h
  | suffix d =>
    obtain ⟨hne, -, hd, -⟩ := hfocus
    exact enter_good (f := .declared d) hdone hframes ⟨hne, Bool.or_eq_true_iff.2 (.inr hd)⟩ h
  | fieldNext id fields => exact enter_good (f := .field id fields) hdone hframes hfocus h
  | caseNext u cases => exact enter_good (f := .arm u cases false) hdone hframes hfocus h
  | procedureNext v =>
    obtain ⟨hnil, hv, -⟩ := hfocus
    exact enter_good (f := .operand (.result v)) hdone hframes ⟨hnil, hv⟩ h
  | versionNext p =>
    obtain ⟨rfl, hp, -⟩ := hfocus
    exact enter_good hdone hframes (versionFocus_good hp) h
  | _ =>
    cases h
    exact ⟨hdone, hframes, hfocus⟩

/-- one token keeps the invariant -/
theorem step_good (hst : st.Good) (htok : tok.lexeme.wellSpelled = true) (h : st.step tok = .ok st') : st'.Good := by
  rw [step_eq] at h
  obtain ⟨s, hs, h⟩ := of_bind_eq_ok h
  have hgood : s.Good := by
    split_ifs at hs
    · cases hs
      exact hst
    · exact release_good hst hs
  obtain ⟨o, ho, h⟩ := of_bind_eq_ok h
  cases o with
  | none => cases h
  | some r =>
    obtain ⟨hdone, hframes, hfocus⟩ := follow_good hgood.frames hgood.focus htok ho
    exact enter_good (by rw [hdone]; exact hgood.done) hframes hfocus h

/-- so does every run -/
theorem run_good {toks : List Token} (hst : st.Good) (htoks : ∀ tok ∈ toks, tok.lexeme.wellSpelled = true)
    (h : st.run toks = .ok st') : st'.Good := by
  induction toks generalizing st with
  | nil =>
    cases h
    exact hst
  | cons tok toks ih =>
    rw [run_cons] at h
    obtain ⟨s, hs, h⟩ := of_bind_eq_ok h
    exact ih (step_good hst (htoks tok List.mem_cons_self) hs) (fun t ht => htoks t (List.mem_cons_of_mem tok ht)) h

theorem start_good : start.Good := ⟨by simp [start], trivial, trivial⟩

/-- **The grammar builds grammatical definitions only.** -/
theorem grammatical_of_parse {toks : List Token} {ds : List Definition}
    (htoks : ∀ tok ∈ toks, tok.lexeme.wellSpelled = true) (h : parse toks = .ok ds) :
    ∀ d ∈ ds, d.grammatical = true := by
  obtain ⟨st, hrun, h⟩ := of_bind_eq_ok h
  obtain ⟨s, hrelease, h⟩ := of_bind_eq_ok h
  have hgood := release_good (run_good start_good htoks hrun) hrelease
  intro d hd
  split at h
  · cases h
    exact hgood.done d (Array.mem_toList_iff.1 hd)
  · cases h

end Xdr.Grammar
