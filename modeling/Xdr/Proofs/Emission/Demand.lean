/-
What a schema asks the generation for, and how the generation answers.

A definition asks for the types declared inline in it and for the bounded containers of its declarations, each before
itself (`Demand`, `Table.demands`). The code of a definition is settled by the definition and the table (`codeAs`); what
was generated before decides only whether a demand is answered by a fragment or by a name that is claimed already.
- `typeAs_fst`: the type of a declaration does not depend on what was generated before.
- `Generates`: the steps of the generation, with the names that are claimed and the fragments that are made.
- `emission_answers`: the generation of a table is such steps, through all its demands.
-/
import Xdr.Proofs.Emission.Unions
import Xdr.Proofs.Schema.Naming

namespace Xdr

open Code Emission

/-! ## Demands -/

/-- a bounded container that a declaration asks for: its element type and the text of its bound -/
structure Container where
  qualifier : Qualifier
  base : String
  bound : String
deriving DecidableEq, Repr

namespace Container

def name (t : Table) (c : Container) : String := t.wrapperName c.base c.bound

def code (t : Table) (c : Container) : Fragment :=
  .wrapper (c.name t) (t.container c.qualifier c.base "") c.bound
    ((Primitive.ofIdlName? c.base).any Primitive.isByteSequence)

end Container

namespace Table

/-- the container that a declaration of a base type asks for: one with a bound that is none asks for nothing -/
def container? (t : Table) (q : Qualifier) (base bound : String) : Option Container :=
  if isBounded q base then (t.bound bound).text?.map fun b => ⟨q, base, b⟩ else none

/-- the type of a declaration of a base type -/
def typeExpr (t : Table) (q : Qualifier) (base bound : String) : TypeExpr :=
  match t.container? q base bound with
  | some c => .wrapper (c.name t)
  | none => t.container q base bound

end Table

/-- the type that a declaration names; one that is declared inline goes by `name` -/
def Decl.baseName (name : String) (d : Decl) : String := if d.body.isSome then name else d.typeName

def Decl.container? (t : Table) (name : String) (d : Decl) : Option Container :=
  t.container? d.qualifier (d.baseName name) d.bound

def Decl.typeExpr (t : Table) (name : String) (d : Decl) : TypeExpr := t.typeExpr d.qualifier (d.baseName name) d.bound

/-- a field or the payload of an arm, in a definition named `parent` -/
def Decl.member (t : Table) (parent : String) (d : Decl) : Member := ⟨d.id, d.typeExpr t (memberTypeName parent d.id)⟩

def Arm.code (t : Table) (parent : String) (enum : Option String) (a : Arm) : UnionArm :=
  ⟨a.cases.map (t.pattern enum), a.isDefault, if a.decl.isVoid then none else some (a.decl.member t parent)⟩

/-- the code of a definition under a name, made of the definition alone; a program has none -/
def Definition.codeAs (t : Table) (name : String) : Definition → Option Fragment
  | .const _ value => some (.const name (t.constType value) (Table.constValue value))
  | .typedef d => some (.alias name (d.typeExpr t (underscored name)))
  | .struct _ fields => some (.struct name (fields.map (Decl.member t name)))
  | .enum _ tags => some (.enum name (tags.map fun g => ⟨g.id, t.tagValue g.value⟩))
  | .union _ tagId tagType arms hasDefault =>
    some (.union ⟨name, tagId, tagType, arms.map (Arm.code t name (t.enumType? tagType)), hasDefault⟩)
  | .program _ => none

inductive Demand where
  /-- a type declared inline, under the name made for it -/
  | inline (name : String) (body : Definition)
  | container (c : Container)
  /-- a definition under its own name -/
  | declared (d : Definition)

mutual

/-- what a definition asks for when it is generated under `name`, in the order of generation -/
def Definition.demandsAs (t : Table) (name : String) : Definition → List Demand
  | .typedef d => d.demandsAs t (underscored name)
  | .struct _ fields => fieldDemands t name fields
  | .union _ _ _ arms _ => armDemands t name arms
  | .const .. => []
  | .enum .. => []
  | .program _ => []

/-- what a declaration asks for: the type declared in it, behind what that asks for, and its container -/
def Decl.demandsAs (t : Table) (name : String) : Decl → List Demand
  | ⟨_, type, q, bound, none⟩ => (t.container? q type bound).toList.map .container
  | ⟨_, _, q, bound, some b⟩ =>
    b.demandsAs t name ++ [.inline name b] ++ (t.container? q name bound).toList.map .container

def fieldDemands (t : Table) (parent : String) : List Decl → List Demand
  | [] => []
  | d :: ds => d.demandsAs t (memberTypeName parent d.id) ++ fieldDemands t parent ds

def armDemands (t : Table) (parent : String) : List Arm → List Demand
  | [] => []
  | ⟨_, _, d⟩ :: as =>
    (if d.isVoid then [] else d.demandsAs t (memberTypeName parent d.id)) ++ armDemands t parent as

end

/-- everything that a table asks for -/
def Table.demands (t : Table) : List Demand :=
  t.definitions.toList.flatMap fun d => d.demandsAs t d.id ++ [.declared d]

/-- the name under which the type of a member is generated, in a definition that is generated under `name` -/
def Definition.innerName (name member : String) : Definition → String
  | .typedef _ => underscored name
  | _ => memberTypeName name member

theorem Definition.startsWith_innerName (name member : String) (d : Definition) :
    (d.innerName name member).startsWith "_" = true := by
  cases d with
  | typedef e => exact startsWith_underscored name
  | _ => exact startsWith_memberTypeName name member

theorem Definition.innerName_of_isBody {d : Definition} (h : d.isBody = true) (name member : String) :
    d.innerName name member = underscored name ++ "_" ++ member := by
  cases d with
  | typedef e => cases h
  | _ => rfl

theorem fieldDemands_eq (t : Table) (parent : String) (fields : List Decl) :
    fieldDemands t parent fields = fields.flatMap fun m => m.demandsAs t (memberTypeName parent m.id) := by
  induction fields with
  | nil => rfl
  | cons d ds ih => rw [fieldDemands, ih, List.flatMap_cons]

theorem armDemands_eq (t : Table) (parent : String) (arms : List Arm) :
    armDemands t parent arms = (members arms).flatMap fun m => m.demandsAs t (memberTypeName parent m.id) := by
  induction arms with
  | nil => rfl
  | cons a as ih =>
    obtain ⟨cases, isDefault, d⟩ := a
    rw [armDemands, ih]
    cases hv : d.isVoid <;> simp [members, hv]

/-- a definition asks for what its values ask for -/
theorem Definition.demandsAs_eq (t : Table) (name : String) (d : Definition) :
    d.demandsAs t name = d.values.flatMap fun m => m.demandsAs t (d.innerName name m.id) := by
  cases d with
  | typedef e => simp [demandsAs, values, decls, innerName]
  | struct id fields => exact fieldDemands_eq t name fields
  | union id tagId tagType arms hasDefault => exact armDemands_eq t name arms
  | const | enum | program => rfl

/-! ## What is generated -/

def Code.Fragment.isContainer : Fragment → Bool
  | .wrapper .. => true
  | _ => false

/-- a fragment, and whether its name is made for it and claimed -/
structure Product where
  claimed : Bool
  fragment : Fragment
deriving DecidableEq, Repr

def Product.name (p : Product) : String := p.fragment.name

def Demand.product? (t : Table) : Demand → Option Product
  | .inline name b => (b.codeAs t name).map (Product.mk true)
  | .container c => some ⟨true, c.code t⟩
  | .declared d => (d.codeAs t d.id).map (Product.mk false)

/-- what the generation makes of demands, with the names that are claimed before and after -/
inductive Generates (t : Table) : List Demand → Std.HashSet String → Std.HashSet String → List Product → Prop
  | nil (ns : Std.HashSet String) : Generates t [] ns ns []
  | append {es es' : List Demand} {ns ns₁ ns' : Std.HashSet String} {new new' : List Product}
    (h : Generates t es ns ns₁ new) (h' : Generates t es' ns₁ ns' new') :
    Generates t (es ++ es') ns ns' (new ++ new')
  /-- the name of an inline type is claimed before its body asks for anything -/
  | inline {name : String} {b : Definition} {f : Fragment} {ns ns' : Std.HashSet String} {new : List Product}
    (hfree : name ∉ ns) (hbody : b.isBody = true) (hcode : b.codeAs t name = some f)
    (h : Generates t (b.demandsAs t name) (ns.insert name) ns' new) :
    Generates t (b.demandsAs t name ++ [.inline name b]) ns ns' (new ++ [⟨true, f⟩])
  /-- an inline type is left out, with all it asks for, when its name is claimed -/
  | taken {name : String} {b : Definition} {ns : Std.HashSet String} (hbody : b.grammaticalBody = true)
    (htaken : name ∈ ns) :
    Generates t (b.demandsAs t name ++ [.inline name b]) ns (ns.insert name) []
  | container {c : Container} {ns : Std.HashSet String} (hfree : c.name t ∉ ns) :
    Generates t [.container c] ns (ns.insert (c.name t)) [⟨true, c.code t⟩]
  | shared {c : Container} {ns : Std.HashSet String} (htaken : c.name t ∈ ns) :
    Generates t [.container c] ns (ns.insert (c.name t)) []
  | declared (d : Definition) (ns : Std.HashSet String) :
    Generates t [.declared d] ns ns (Demand.product? t (.declared d)).toList

/-! ## Types and code -/

theorem boundOf_fst (t : Table) (bound : String) (s : Emission) : (t.boundOf bound s).1 = t.bound bound := by
  unfold Table.boundOf
  cases t.bound bound <;> rfl

theorem materialize_fst (t : Table) (q : Qualifier) (base bound : String) (s : Emission) :
    (t.materialize q base bound s).1 = .wrapper (t.wrapperName base bound) := by
  unfold Table.materialize
  rw [run_bind]
  cases (claim (t.wrapperName base bound) s).1 <;> rfl

theorem typeOf_fst (t : Table) (q : Qualifier) (base bound : String) (s : Emission) :
    (t.typeOf q base bound s).1 = t.typeExpr q base bound := by
  unfold Table.typeOf Table.typeExpr Table.container?
  split_ifs
  · rw [run_bind, boundOf_fst]
    cases (t.bound bound).text? with
    | none => rfl
    | some b => exact materialize_fst t q base b _
  · rfl

/-- the type of a declaration does not depend on what was generated before -/
theorem typeAs_fst (t : Table) (name : String) (d : Decl) (s : Emission) :
    (d.typeAs t name s).1 = d.typeExpr t name := by
  obtain ⟨id, type, q, bound, body⟩ := d
  cases body with
  | none => exact typeOf_fst t q type bound s
  | some b =>
    rw [Decl.typeAs, run_bind]
    cases (claim name s).1 with
    | true => exact typeOf_fst t q name bound _
    | false => exact typeOf_fst t q name bound _

theorem emitFields_fst (t : Table) (parent : String) (fields : List Decl) (s : Emission) :
    (emitFields t parent fields s).1 = fields.map (Decl.member t parent) := by
  induction fields generalizing s with
  | nil => rfl
  | cons d ds ih =>
    rw [emitFields, run_bind, run_bind, run_pure, ih, typeAs_fst]
    rfl

theorem emitArms_fst (t : Table) (parent : String) (enum : Option String) (arms : List Arm) (s : Emission) :
    (emitArms t parent enum arms s).1 = arms.map (Arm.code t parent enum) := by
  induction arms generalizing s with
  | nil => rfl
  | cons a as ih =>
    obtain ⟨cases, isDefault, d⟩ := a
    rw [emitArms]
    cases hv : d.isVoid with
    | true => simp [run_bind, run_map, run_pure, ih, Arm.code, hv]
    | false => simp [run_bind, run_map, ih, typeAs_fst, Arm.code, hv, Decl.member]

/-! ## Runs -/

/-- from `s` to `s'` the generation answers these demands -/
def Answers (t : Table) (es : List Demand) (s s' : Emission) : Prop :=
  ∃ new : List Product, s'.fragments.toList = s.fragments.toList ++ new.map Product.fragment ∧
    Generates t es s.names s'.names new

variable {t : Table} {es es' : List Demand} {s s₁ s' : Emission}

theorem Answers.of_eq (hf : s'.fragments = s.fragments) (hn : s'.names = s.names) : Answers t [] s s' := by
  refine ⟨[], by simp [hf], ?_⟩
  rw [hn]
  exact .nil _

theorem Answers.append (h : Answers t es s s₁) (h' : Answers t es' s₁ s') : Answers t (es ++ es') s s' := by
  obtain ⟨new, hf, hg⟩ := h
  obtain ⟨new', hf', hg'⟩ := h'
  exact ⟨new ++ new', by rw [hf', hf, List.map_append, List.append_assoc], hg.append hg'⟩

theorem boundOf_snd (t : Table) (bound : String) (s : Emission) :
    (t.boundOf bound s).2.fragments = s.fragments ∧ (t.boundOf bound s).2.names = s.names := by
  unfold Table.boundOf
  cases t.bound bound <;> exact ⟨rfl, rfl⟩

theorem claim_free {name : String} (h : name ∉ s.names) : (claim name s).1 = true := by
  simpa [claim] using h

theorem claim_taken {name : String} (h : name ∈ s.names) : (claim name s).1 = false := by
  simpa [claim] using h

theorem materialize_answers (t : Table) (c : Container) (s : Emission) :
    Answers t [.container c] s (t.materialize c.qualifier c.base c.bound s).2 := by
  unfold Table.materialize
  rw [run_bind]
  by_cases h : t.wrapperName c.base c.bound ∈ s.names
  · rw [claim_taken h]
    exact ⟨[], by simp [claim, run_pure], .shared h⟩
  · rw [claim_free h]
    exact ⟨[⟨true, c.code t⟩], Array.toList_push, .container h⟩

theorem typeOf_answers (t : Table) (q : Qualifier) (base bound : String) (s : Emission) :
    Answers t ((t.container? q base bound).toList.map .container) s (t.typeOf q base bound s).2 := by
  obtain ⟨hf, hn⟩ := boundOf_snd t bound s
  unfold Table.typeOf Table.container?
  split_ifs
  · rw [run_bind, boundOf_fst]
    have hbound : Answers t [] s (t.boundOf bound s).2 := .of_eq hf hn
    cases (t.bound bound).text? with
    | none => exact hbound
    | some b => exact hbound.append (materialize_answers t ⟨q, base, b⟩ _)
  · exact .of_eq rfl rfl

theorem exists_codeAs_of_isBody (t : Table) (name : String) {b : Definition} (h : b.isBody = true) :
    ∃ f, b.codeAs t name = some f := by
  cases b with
  | struct | enum | union => exact ⟨_, rfl⟩
  | const | typedef | program => cases h

/-- a type that is declared inline, from what its body asks for -/
theorem Answers.inline {name : String} {b : Definition} (hfree : name ∉ s.names) (hbody : b.isBody = true)
    (h : Answers t (b.demandsAs t name) { s with names := s.names.insert name } s₁)
    (hf : s'.fragments.toList = s₁.fragments.toList ++ (b.codeAs t name).toList) (hn : s'.names = s₁.names) :
    Answers t (b.demandsAs t name ++ [.inline name b]) s s' := by
  obtain ⟨new, hnew, hg⟩ := h
  obtain ⟨f, hcode⟩ := exists_codeAs_of_isBody t name hbody
  refine ⟨new ++ [⟨true, f⟩], ?_, hn ▸ hg.inline hfree hbody hcode⟩
  rw [hf, hnew, hcode]
  simp

mutual

/-- a definition is generated behind what it asks for -/
theorem emitAs_answers (t : Table) (name : String) (d : Definition) (hd : d.grammaticalBody = true) (s : Emission) :
    ∃ s₁, Answers t (d.demandsAs t name) s s₁ ∧
      (d.emitAs t name s).2.fragments.toList = s₁.fragments.toList ++ (d.codeAs t name).toList ∧
      (d.emitAs t name s).2.names = s₁.names := by
  match d with
  | .const id value =>
    rw [Definition.emitAs]
    exact ⟨s, .of_eq rfl rfl, Array.toList_push, rfl⟩
  | .typedef e =>
    rw [Definition.emitAs, run_bind, typeAs_fst]
    exact ⟨_, typeAs_answers t (underscored name) e hd s, Array.toList_push, rfl⟩
  | .struct id fields =>
    rw [Definition.emitAs, run_bind, emitFields_fst]
    exact ⟨_, emitFields_answers t name fields hd s, Array.toList_push, rfl⟩
  | .enum id tags =>
    rw [Definition.emitAs]
    exact ⟨s, .of_eq rfl rfl, Array.toList_push, rfl⟩
  | .union id tagId tagType arms hasDefault =>
    rw [Definition.emitAs, run_bind, emitArms_fst]
    simp only [Definition.grammaticalBody, Bool.and_eq_true] at hd
    exact ⟨_, emitArms_answers t name (t.enumType? tagType) arms hd.2 s, Array.toList_push, rfl⟩
  | .program p =>
    rw [Definition.emitAs]
    exact ⟨s, .of_eq rfl rfl, (List.append_nil _).symm, rfl⟩

theorem typeAs_answers (t : Table) (name : String) (d : Decl) (hd : d.grammatical = true) (s : Emission) :
    Answers t (d.demandsAs t name) s (d.typeAs t name s).2 := by
  match d with
  | ⟨id, type, q, bound, none⟩ =>
    rw [Decl.typeAs, Decl.demandsAs]
    exact typeOf_answers t q type bound s
  | ⟨id, type, q, bound, some b⟩ =>
    simp only [Decl.grammatical, Bool.and_eq_true] at hd
    rw [Decl.typeAs, Decl.demandsAs, run_bind]
    by_cases h : name ∈ s.names
    · rw [claim_taken h]
      have htaken : Answers t (b.demandsAs t name ++ [.inline name b]) s (claim name s).2 :=
        ⟨[], (List.append_nil _).symm, .taken hd.2 h⟩
      exact htaken.append (typeOf_answers t q name bound _)
    · rw [claim_free h]
      obtain ⟨s₁, hbody, hf, hn⟩ := emitAs_answers t name b hd.2 (claim name s).2
      exact (Answers.inline h hd.1.1.2 hbody hf hn).append (typeOf_answers t q name bound _)

theorem emitFields_answers (t : Table) (parent : String) (fields : List Decl) (hd : grammaticalFields fields = true)
    (s : Emission) : Answers t (fieldDemands t parent fields) s (emitFields t parent fields s).2 := by
  match fields with
  | [] => exact .of_eq rfl rfl
  | d :: ds =>
    rw [grammaticalFields, Bool.and_eq_true] at hd
    rw [emitFields, run_bind, fieldDemands]
    exact (typeAs_answers t (memberTypeName parent d.id) d hd.1 s).append (emitFields_answers t parent ds hd.2 _)

theorem emitArms_answers (t : Table) (parent : String) (enum : Option String) (arms : List Arm)
    (hd : grammaticalArms arms = true) (s : Emission) :
    Answers t (armDemands t parent arms) s (emitArms t parent enum arms s).2 := by
  match arms with
  | [] => exact .of_eq rfl rfl
  | ⟨cases, isDefault, d⟩ :: as =>
    rw [grammaticalArms, Bool.and_eq_true, Bool.and_eq_true] at hd
    rw [emitArms, armDemands]
    cases hv : d.isVoid with
    | true => exact emitArms_answers t parent enum as hd.2 s
    | false =>
      have hvalue := Decl.grammatical_of_isVoid hd.1.2 hv
      exact (typeAs_answers t (memberTypeName parent d.id) d hvalue s).append (emitArms_answers t parent enum as hd.2 _)

end

/-- a top-level definition, behind what it asks for -/
theorem emit_answers (t : Table) (d : Definition) (hd : d.grammatical = true) (s : Emission) :
    Answers t (d.demandsAs t d.id ++ [.declared d]) s (d.emit t s).2 := by
  obtain ⟨s₁, ⟨new, hnew, hg⟩, hf, hn⟩ := emitAs_answers t d.id d (Bool.and_eq_true_iff.1 hd).2 s
  refine ⟨new ++ (Demand.product? t (.declared d)).toList, ?_, ?_⟩
  · rw [Definition.emit, hf, hnew]
    cases h : d.codeAs t d.id <;> simp [Demand.product?, h]
  · rw [Definition.emit, hn]
    exact hg.append (.declared d _)

/-- the generation of a table answers all its demands -/
theorem emission_answers {t : Table} (hd : ∀ d ∈ t.definitions, d.grammatical = true) :
    Answers t t.demands {} t.emission := by
  have hall : ∀ (ds : List Definition), (∀ d ∈ ds, d.grammatical = true) → ∀ s : Emission,
      Answers t (ds.flatMap fun d => d.demandsAs t d.id ++ [.declared d]) s ((ds.forM fun d => d.emit t) s).2 := by
    intro ds
    induction ds with
    | nil => exact fun _ s => .of_eq rfl rfl
    | cons d ds ih =>
      intro hds s
      exact (emit_answers t d (hds d List.mem_cons_self) s).append
        (ih (fun e he => hds e (List.mem_cons_of_mem d he)) _)
  exact hall t.definitions.toList (fun d hdef => hd d (Array.mem_toList_iff.1 hdef)) {}

end Xdr
