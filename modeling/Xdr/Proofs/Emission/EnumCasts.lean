/-
Names with the type of an enum where an integer is wanted.

An enum is generated as a type of its own around an integer. Its tags have that type, and so has a constant whose chain
ends at a tag. As the value of a tag, or as the length of an array, such a name is no integer: its field is, and a cast
of the name is no expression. What is written looks at the name alone, and not at the end of its chain.
- `hasEnumType_iff`: the names with the type of an enum, by where their chains end.
- `mem_casts_iff`: the names that the code of a definition casts.
- `casts_avoid_enums_iff`: no name with the type of an enum is cast exactly when the schema gives tags no constants of
  such a type for values, and arrays no such names for lengths.
- `casts_accepted`: a schema that is accepted and does both.
-/
import Xdr.Proofs.Emission.Constants
import Xdr.Proofs.Emission.EnumNames

namespace Xdr

open Code

variable {t : Table} {x e : String}

/-! ## Types of names -/

/-- the chain of constants from the name ends at a tag of the enum -/
def Table.HasEnumType (t : Table) (x e : String) : Prop :=
  ∃ tag, Relation.ReflTransGen t.Constant x tag ∧ t.enumOf? tag = some e

section

variable (ht : t.Reachable)

include ht

/-- a tag is the name of no definition -/
theorem get?_of_tag {tag : String} (h : t.enumOf? tag = some e) : t.get? tag = none := by
  cases hd : t.get? tag with
  | none => rfl
  | some d =>
    obtain ⟨hmem, rfl⟩ := ht.get?_eq_some hd
    rw [ht.tagged.ids d hmem] at h
    cases h

theorem resolve_of_tag {tag : String} (hchain : Relation.ReflTransGen t.Constant x tag)
    (h : t.enumOf? tag = some e) : t.resolve x = tag :=
  ht.indexed.chase_eq_end hchain (by rw [get?_of_tag ht h, Option.bind_none])

theorem hasEnumType_iff : t.HasEnumType x e ↔ t.enumOf? (t.resolve x) = some e := by
  constructor
  · rintro ⟨tag, hchain, h⟩
    rwa [resolve_of_tag ht hchain h]
  · exact fun h => ⟨t.resolve x, reflTransGen_chaseFrom _ _ _, h⟩

/-- a name with the type of an enum resolves to no integer -/
theorem integer?_of_hasEnumType (h : t.HasEnumType x e) : t.integer? x = none :=
  read?_of_isName (ht.isName_of_enumOf? ((hasEnumType_iff ht).1 h))

/-- a tag has the type of the enum that is recorded for it -/
theorem enumOf?_of_hasEnumType {e' : String} (h : t.HasEnumType x e) (htag : t.enumOf? x = some e') :
    t.enumOf? x = some e := by
  rwa [hasEnumType_iff ht, resolve_of_tag ht .refl htag] at h

theorem constType_eq_enum_iff {v : String} : t.constType v = .enum e ↔ t.HasEnumType v e := by
  constructor
  · intro h
    unfold Table.constType at h
    rw [hasEnumType_iff ht]
    split at h
    · cases h
    · split at h
      · rename_i e' he'
        rw [he', ConstType.enum.inj h]
      · cases h
  · intro h
    have hnone := integer?_of_hasEnumType ht h
    rw [hasEnumType_iff ht] at h
    unfold Table.constType
    rw [hnone, h]

/-- a tag of an enum at the top level -/
theorem enumOf?_of_mem {tags : List EnumTag} {g : EnumTag} (hd : .enum e tags ∈ t.definitions) (hg : g ∈ tags) :
    t.enumOf? g.id = some e :=
  enumOf?_of_namesInside ht hd (.self _ _) (List.mem_map_of_mem hg)

/-- the name of a constant is no tag -/
theorem enumOf?_of_const {v : String} (hd : .const x v ∈ t.definitions) : t.enumOf? x = none := ht.tagged.ids _ hd

/-- a constant has the type that its value has -/
theorem hasEnumType_of_const {v : String} (hd : .const x v ∈ t.definitions) :
    t.HasEnumType x e ↔ t.HasEnumType v e := by
  have hstep := (Table.constant_iff ht).2 hd
  constructor
  · rintro ⟨tag, hchain, htag⟩
    rcases hchain.cases_head with rfl | ⟨w, hw, hchain⟩
    · have hget : t.get? x = some (.const x v) := ht.indexed.get?_eq_some_iff.2 ⟨hd, rfl⟩
      rw [get?_of_tag ht htag] at hget
      cases hget
    · obtain rfl := Option.some.inj (hw.symm.trans hstep)
      exact ⟨tag, hchain, htag⟩
  · rintro ⟨tag, hchain, htag⟩
    exact ⟨tag, .head hstep hchain, htag⟩

/-- constants are generated with the type of an enum where their chains end at a tag -/
theorem exists_const_enum_iff : (∃ value, .const x (.enum e) value ∈ t.emission.fragments) ↔
    (∃ v, .const x v ∈ t.definitions) ∧ t.HasEnumType x e := by
  constructor
  · rintro ⟨value, hf⟩
    obtain ⟨v, hd, htype, -⟩ := (mem_emission_const_iff ht).1 hf
    exact ⟨⟨v, hd⟩, (hasEnumType_of_const ht hd).2 ((constType_eq_enum_iff ht).1 htype.symm)⟩
  · rintro ⟨⟨v, hd⟩, h⟩
    have htype := (constType_eq_enum_iff ht).2 ((hasEnumType_of_const ht hd).1 h)
    exact ⟨_, (mem_emission_const_iff ht).2 ⟨v, hd, htype.symm, rfl⟩⟩

/-- the tags of an enum that is generated have its type -/
theorem hasEnumType_of_mem_emission {members : List EnumMember} (hf : .enum e members ∈ t.emission.fragments)
    {m : EnumMember} (hm : m ∈ members) : t.HasEnumType m.name e := by
  refine ⟨m.name, .refl, ?_⟩
  rcases exists_makes hf with hcontainer | ⟨g, hg, g', hsteps, hown⟩
  · cases hcontainer
  · obtain ⟨rfl, hnames⟩ := eq_of_codeAs_enum hown
    have hinside := namesInside_of_asks hsteps
    rw [name_of_mem_generationsFrom hg] at hinside
    refine enumOf?_of_namesInside ht (mem_definitions_of_mem_generations hg) hinside ?_
    rw [← hnames]
    exact List.mem_map_of_mem hm

end

/-! ## Casts -/

/-- the name that is cast to an integer -/
def Code.TagValue.cast? : TagValue → Option String
  | .constant name => some name
  | .number _ | .tag _ => none

def Code.TypeExpr.cast? : TypeExpr → Option String
  | .array _ (.constant name) => some name
  | _ => none

namespace Code.Fragment

/-- the values of the tags of an enum -/
def tagValues : Fragment → List TagValue
  | .enum _ members => members.map EnumMember.value
  | _ => []

/-- the types of what a fragment declares, or is a name for -/
def types : Fragment → List TypeExpr
  | .alias _ type => [type]
  | .struct _ fields => fields.map Member.type
  | .union u => u.payloads.map Member.type
  | .wrapper _ content .. => [content]
  | .const .. | .enum .. => []

/-- the names that are cast to integers in a fragment -/
def casts (f : Fragment) : List String := f.tagValues.filterMap TagValue.cast? ++ f.types.filterMap TypeExpr.cast?

end Code.Fragment

namespace Definition

/-- the values that a schema gives the tags of an enum -/
def tagValues : Definition → List String
  | .enum _ tags => tags.map EnumTag.value
  | _ => []

/-- the lengths of the arrays that are declared directly in a definition -/
def arrayLengths (d : Definition) : List String := (d.values.filter fun m => m.qualifier = .array).map Decl.bound

end Definition

theorem payloads_code (t : Table) (name : String) (enum : Option String) (arms : List Arm) :
    (arms.map (Arm.code t name enum)).filterMap UnionArm.payload = (members arms).map (Decl.member t name) := by
  induction arms with
  | nil => rfl
  | cons a as ih => cases hv : a.decl.isVoid <;> simp_all [members, Arm.code]

variable {b : Definition} {name : String} {f : Fragment}

theorem types_of_codeAs (h : b.codeAs t name = some f) :
    f.types = b.values.map fun m => m.typeExpr t (b.innerName name m.id) := by
  cases b with
  | program => cases h
  | const | enum =>
    cases h
    rfl
  | typedef d =>
    cases h
    rfl
  | struct id fields =>
    cases h
    simp [Fragment.types, Definition.values, Definition.decls, Decl.member, Definition.innerName]
  | union id tagId tagType arms hasDefault =>
    cases h
    rw [Fragment.types, UnionCode.payloads, payloads_code, List.map_map]
    rfl

theorem tagValues_of_codeAs (h : b.codeAs t name = some f) : f.tagValues = b.tagValues.map t.tagValue := by
  cases b with
  | program => cases h
  | enum id tags =>
    cases h
    simp [Fragment.tagValues, Definition.tagValues]
  | const | typedef | struct | union =>
    cases h
    rfl

theorem cast?_tagValue_iff {v : String} :
    (t.tagValue v).cast? = some x ↔ v = x ∧ t.integer? x = none ∧ t.enumOf? x = none := by
  unfold Table.tagValue
  cases hinteger : t.integer? v with
  | some n =>
    refine iff_of_false nofun ?_
    rintro ⟨rfl, hnone, -⟩
    cases hinteger.symm.trans hnone
  | none =>
    cases htag : t.enumOf? v with
    | some e =>
      refine iff_of_false nofun ?_
      rintro ⟨rfl, -, hnone⟩
      cases htag.symm.trans hnone
    | none =>
      constructor
      · rintro ⟨⟩
        exact ⟨rfl, hinteger, htag⟩
      · rintro ⟨rfl, -, -⟩
        rfl

theorem cast?_length_iff {elem len : String} :
    (TypeExpr.array elem (t.length len)).cast? = some x ↔ len = x ∧ t.integer? x = none := by
  unfold Table.length
  cases hinteger : t.integer? len with
  | some n =>
    refine iff_of_false nofun ?_
    rintro ⟨rfl, hnone⟩
    cases hinteger.symm.trans hnone
  | none =>
    constructor
    · rintro ⟨⟩
      exact ⟨rfl, hinteger⟩
    · rintro ⟨rfl, -⟩
      rfl

/-- only arrays hold a length -/
theorem cast?_typeExpr_iff {m : Decl} :
    (m.typeExpr t name).cast? = some x ↔ m.qualifier = .array ∧ m.bound = x ∧ t.integer? x = none := by
  by_cases hq : m.qualifier = .array
  · have htype : m.typeExpr t name = .array (m.baseName name) (t.length m.bound) := by
      simp [Decl.typeExpr, Table.typeExpr, Table.container?, Table.isBounded, Table.container, hq]
    rw [htype, cast?_length_iff]
    exact (and_iff_right hq).symm
  · constructor
    · intro h
      unfold Decl.typeExpr Table.typeExpr at h
      split at h
      · cases h
      · cases hm : m.qualifier with
        | array => exact absurd hm hq
        | scalar | optional | vec =>
          rw [hm] at h
          cases h
    · exact fun h => absurd h.1 hq

/-- **The names that the code of a definition casts** are the values of tags and the lengths of arrays that resolve to no
integer, the values that are tags themselves aside. -/
theorem mem_casts_iff (h : b.codeAs t name = some f) :
    x ∈ f.casts ↔ t.integer? x = none ∧ (x ∈ b.tagValues ∧ t.enumOf? x = none ∨ x ∈ b.arrayLengths) := by
  have hvalues : x ∈ f.tagValues.filterMap TagValue.cast? ↔
      x ∈ b.tagValues ∧ t.integer? x = none ∧ t.enumOf? x = none := by
    simp [tagValues_of_codeAs h, cast?_tagValue_iff]
  have hlengths : x ∈ f.types.filterMap TypeExpr.cast? ↔ x ∈ b.arrayLengths ∧ t.integer? x = none := by
    simp only [types_of_codeAs h, Definition.arrayLengths, List.mem_filterMap, List.mem_map, List.mem_filter,
      exists_exists_and_eq_and, cast?_typeExpr_iff, decide_eq_true_eq]
    constructor
    · rintro ⟨m, hm, hq, hbound, hnone⟩
      exact ⟨⟨m, ⟨hm, hq⟩, hbound⟩, hnone⟩
    · rintro ⟨⟨m, ⟨hm, hq⟩, hbound⟩, hnone⟩
      exact ⟨m, hm, hq, hbound, hnone⟩
  rw [Fragment.casts, List.mem_append, hvalues, hlengths]
  tauto

/-! ## Fragments that cast -/

theorem within_of_namesInside {d e : Definition} (h : d.NamesInside name e x) : e.Within d := by
  induction h with
  | self => exact .self _
  | body hm hb _ ih => exact .body ih (Definition.mem_decls_of_mem_values hm) hb

/-- containers hold no arrays -/
theorem casts_of_container {c : Container} (hc : c.Proper) : (c.code t).casts = [] := by
  obtain ⟨q, base, bound⟩ := c
  obtain rfl : q = if base = Primitive.string.idlName then .scalar else .vec := hc
  split_ifs <;> rfl

/-- what is generated is a container, or the code of a definition of the table or of a type declared in one -/
theorem container_or_exists_codeAs (hf : f ∈ t.emission.fragments) : f.isContainer = true ∨
    ∃ d ∈ t.definitions, ∃ b : Definition, b.Within d ∧ b.codeAs t f.name = some f := by
  refine (exists_makes hf).imp_right ?_
  rintro ⟨g, hg, g', hsteps, hown⟩
  have hname : f.name = g'.name := name_of_codeAs hown
  refine ⟨g.definition, mem_definitions_of_mem_generations hg, g'.definition,
    within_of_namesInside (namesInside_of_asks hsteps), ?_⟩
  rw [hname]
  exact hown

/-- what casts names is no container -/
theorem exists_codeAs_of_mem_casts (ht : t.Reachable) (hf : f ∈ t.emission.fragments) (hx : x ∈ f.casts) :
    ∃ d ∈ t.definitions, ∃ b : Definition, b.Within d ∧ b.codeAs t f.name = some f := by
  refine (container_or_exists_codeAs hf).resolve_left fun hcontainer => ?_
  have hgrammatical := ht.sound.grammatical
  obtain ⟨c, hc, rfl⟩ := exists_container_of_mem_fragments hgrammatical hf hcontainer
  rw [casts_of_container (proper_of_mem_containers hgrammatical hc)] at hx
  cases hx

/-! ## Every table -/

namespace Table

/-- no name with the type of an enum is cast in the code of a definition, at any depth and under any name -/
def NeverCasts (t : Table) : Prop :=
  ∀ d ∈ t.definitions, ∀ b : Definition, b.Within d → ∀ name f, b.codeAs t name = some f →
    ∀ x ∈ f.casts, ∀ e, ¬ t.HasEnumType x e

/-- the schema gives tags no names with the type of an enum but tags for values, and arrays none for lengths -/
def WantsOnlyTags (t : Table) : Prop :=
  ∀ d ∈ t.definitions, ∀ b : Definition, b.Within d → ∀ x e, t.HasEnumType x e →
    (x ∈ b.tagValues → t.enumOf? x = some e) ∧ x ∉ b.arrayLengths

/-- names with the type of an enum, as they are generated and as they are used -/
structure UsesEnums (t : Table) : Prop where
  /-- constants are generated with the type of an enum where their chains end at a tag of it -/
  constants : ∀ x e, (∃ value, .const x (.enum e) value ∈ t.emission.fragments) ↔
    (∃ v, .const x v ∈ t.definitions) ∧ t.HasEnumType x e
  /-- so are the tags of the enum -/
  tags : ∀ e members, .enum e members ∈ t.emission.fragments → ∀ m ∈ members, t.HasEnumType m.name e
  /-- such a name is a tag, and its number is taken for a value, or a constant, and is cast; a length is always cast -/
  uses : ∀ x e, t.HasEnumType x e → t.length x = .constant x ∧
    (t.enumOf? x = some e ∧ t.tagValue x = .tag x ∨ (∃ v, .const x v ∈ t.definitions) ∧ t.tagValue x = .constant x)
  /-- whatever is generated and casts a name is the code of a definition at some depth -/
  emitted : ∀ f ∈ t.emission.fragments, f.casts ≠ [] →
    ∃ d ∈ t.definitions, ∃ b : Definition, b.Within d ∧ b.codeAs t f.name = some f
  /-- none is cast exactly when values are tags at once and there are no such lengths -/
  exact : t.NeverCasts ↔ t.WantsOnlyTags

end Table

section

variable (ht : t.Reachable)

include ht

/-- a name with the type of an enum is a tag or a constant -/
theorem tagValue_of_hasEnumType (h : t.HasEnumType x e) :
    t.enumOf? x = some e ∧ t.tagValue x = .tag x ∨
      (∃ v, .const x v ∈ t.definitions) ∧ t.tagValue x = .constant x := by
  have hinteger := integer?_of_hasEnumType ht h
  obtain ⟨tag, hchain, htag⟩ := h
  rcases hchain.cases_head with rfl | ⟨v, hstep, -⟩
  · refine .inl ⟨htag, ?_⟩
    simp [Table.tagValue, hinteger, htag]
  · have hd := (Table.constant_iff ht).1 hstep
    refine .inr ⟨⟨v, hd⟩, ?_⟩
    simp [Table.tagValue, hinteger, enumOf?_of_const ht hd]

theorem neverCasts_iff : t.NeverCasts ↔ t.WantsOnlyTags := by
  constructor
  · intro h d hd b hb x e hx
    have hinteger := integer?_of_hasEnumType ht hx
    -- a definition with values or lengths is no program, so it has code
    have hcast : (x ∈ b.tagValues ∧ t.enumOf? x = none ∨ x ∈ b.arrayLengths) → False := by
      intro hcast
      cases hcode : b.codeAs t "" with
      | none =>
        cases b with
        | program => simp [Definition.tagValues, Definition.arrayLengths, Definition.values, Definition.decls] at hcast
        | const | typedef | struct | enum | union => cases hcode
      | some f => exact h d hd b hb "" f hcode x ((mem_casts_iff hcode).2 ⟨hinteger, hcast⟩) e hx
    refine ⟨fun hvalue => ?_, fun hlength => hcast (.inr hlength)⟩
    cases htag : t.enumOf? x with
    | none => exact absurd (.inl ⟨hvalue, htag⟩) hcast
    | some e' => rw [← htag, enumOf?_of_hasEnumType ht hx htag]
  · intro h d hd b hb name f hcode x hx e hxe
    obtain ⟨hvalue, hlength⟩ := h d hd b hb x e hxe
    obtain ⟨-, ⟨hmem, hnone⟩ | hmem⟩ := (mem_casts_iff hcode).1 hx
    · rw [hvalue hmem] at hnone
      cases hnone
    · exact hlength hmem

end

/-- **Names with the type of an enum are cast unless they are tags for values.** In a reachable table the constants with
such a type are those whose chains end at a tag. Where a tag is the value of a tag, its number is taken; a constant of
such a type is cast, and so is any such name for the length of an array. So no such name is cast exactly when the
schema wants the numbers of tags only, and of these only as values of tags. -/
theorem casts_avoid_enums_iff {t : Table} (ht : t.Reachable) : t.UsesEnums where
  constants _ _ := exists_const_enum_iff ht
  tags _ _ hf _ hm := hasEnumType_of_mem_emission ht hf hm
  uses x e h := ⟨by rw [Table.length, integer?_of_hasEnumType ht h], tagValue_of_hasEnumType ht h⟩
  emitted f hf hcasts := by
    obtain ⟨x, hx⟩ := List.exists_mem_of_ne_nil _ hcasts
    exact exists_codeAs_of_mem_casts ht hf hx
  exact := neverCasts_iff ht

/-- a constant that names a tag, and a tag of another enum that takes its number -/
def tagSchema : List Definition :=
  [.enum "Color" [⟨"RED", "1"⟩], .const "FAV" "RED", .enum "Mode" [⟨"AUTO", "RED"⟩]]

theorem casts_avoid_enums_iff_sample : ∃ t, Table.empty.addSource (schemaText tagSchema) = (t, .ok 3) ∧ t.Reachable ∧
    t.HasEnumType "RED" "Color" ∧ t.tagValue "RED" = .tag "RED" ∧
    (∃ value, .const "FAV" (.enum "Color") value ∈ t.emission.fragments) ∧ t.NeverCasts := by
  have hg : ∀ d ∈ tagSchema, d.grammatical = true := by decide
  obtain ⟨t, hadd, ht, hds⟩ := exists_table_of_acceptable hg (by decide)
  have hmem : ∀ {d}, d ∈ t.definitions ↔ d ∈ tagSchema := by
    intro d
    rw [← hds, Array.mem_toList_iff]
  have hcolor : .enum "Color" [⟨"RED", "1"⟩] ∈ t.definitions := hmem.2 (by simp [tagSchema])
  have htag : t.enumOf? "RED" = some "Color" := enumOf?_of_mem ht hcolor (List.mem_singleton_self _)
  have hred : t.HasEnumType "RED" "Color" := ⟨"RED", .refl, htag⟩
  have hfav : .const "FAV" "RED" ∈ t.definitions := hmem.2 (by simp [tagSchema])
  have huses := casts_avoid_enums_iff ht
  refine ⟨t, hadd, ht, hred, ?_, (huses.constants _ _).2 ⟨⟨_, hfav⟩, (hasEnumType_of_const ht hfav).2 hred⟩,
    huses.exact.2 ?_⟩
  · obtain ⟨-, ⟨-, hvalue⟩ | ⟨⟨v, hd⟩, -⟩⟩ := huses.uses _ _ hred
    · exact hvalue
    · rw [enumOf?_of_const ht hd] at htag
      cases htag
  · intro d hd b hb x e hx
    have hone : x ≠ "1" := by
      rintro rfl
      have hnone := integer?_of_hasEnumType ht hx
      rw [integer?_of_not_name ht (by decide)] at hnone
      exact absurd hnone (by decide)
    have hbodies := Definition.mem_bodies_iff.2 hb
    rw [hmem] at hd
    simp only [tagSchema, List.mem_cons, List.not_mem_nil, or_false] at hd
    rcases hd with rfl | rfl | rfl
    all_goals
      obtain rfl := List.mem_singleton.1 hbodies
      refine ⟨fun hvalue => ?_, List.not_mem_nil⟩
    · exact absurd (List.mem_singleton.1 hvalue) hone
    · cases hvalue
    · obtain rfl := List.mem_singleton.1 hvalue
      exact enumOf?_of_hasEnumType ht hx htag

/-- a constant that names a tag, for a value of a tag, and a tag for a length -/
def castSchema : List Definition :=
  [.enum "Color" [⟨"RED", "1"⟩], .const "FAV" "RED", .enum "Mode" [⟨"AUTO", "FAV"⟩],
    .struct "S" [⟨"a", "int", .array, "RED", none⟩]]

/-- **A schema is accepted in which names with the type of an enum are cast,** a constant and a tag. -/
theorem casts_accepted : ∃ t, Table.empty.addSource (schemaText castSchema) = (t, .ok 4) ∧
    t.HasEnumType "RED" "Color" ∧ t.HasEnumType "FAV" "Color" ∧
    .const "FAV" (.enum "Color") (.name "RED") ∈ t.emission.fragments ∧
    .enum "Mode" [⟨"AUTO", .constant "FAV"⟩] ∈ t.emission.fragments ∧
    .struct "S" [⟨"a", .array "int" (.constant "RED")⟩] ∈ t.emission.fragments ∧
    (TagValue.constant "FAV").text = "FAV as i32" ∧ (Length.constant "RED").text = "\x7b RED as usize \x7d" := by
  have hg : ∀ d ∈ castSchema, d.grammatical = true := by decide
  obtain ⟨t, hadd, ht, hds⟩ := exists_table_of_acceptable hg (by decide)
  have hmem : ∀ d ∈ castSchema, d ∈ t.definitions := fun d hd => Array.mem_toList_iff.1 (hds ▸ hd)
  have hcolor : .enum "Color" [⟨"RED", "1"⟩] ∈ t.definitions := hmem _ (by simp [castSchema])
  have hfav : .const "FAV" "RED" ∈ t.definitions := hmem _ (by simp [castSchema])
  have hred : t.HasEnumType "RED" "Color" := ⟨"RED", .refl, enumOf?_of_mem ht hcolor (List.mem_singleton_self _)⟩
  have hfavRed : t.HasEnumType "FAV" "Color" := (hasEnumType_of_const ht hfav).2 hred
  have hvalue : t.tagValue "FAV" = .constant "FAV" := by
    obtain ⟨htag, -⟩ | ⟨-, hvalue⟩ := tagValue_of_hasEnumType ht hfavRed
    · rw [enumOf?_of_const ht hfav] at htag
      cases htag
    · exact hvalue
  have hlength : t.length "RED" = .constant "RED" := by rw [Table.length, integer?_of_hasEnumType ht hred]
  refine ⟨t, hadd, hred, hfavRed, ?_, ?_, ?_, by decide, by decide⟩
  · exact (mem_emission_const_iff ht).2 ⟨"RED", hfav, ((constType_eq_enum_iff ht).2 hred).symm, by decide⟩
  · refine mem_emission_of_codeAs (hmem (.enum "Mode" [⟨"AUTO", "FAV"⟩]) (by simp [castSchema])) ?_
    simp [Definition.codeAs, Definition.id, hvalue]
  · refine mem_emission_of_codeAs (hmem (.struct "S" [⟨"a", "int", .array, "RED", none⟩]) (by simp [castSchema])) ?_
    simp [Definition.codeAs, Definition.id, Decl.member, Decl.typeExpr, Decl.baseName, Table.typeExpr,
      Table.container?, Table.isBounded, Table.container, hlength]

end Xdr
