/-
Bounds act through their values.

The bound of a declaration is an expression: a number in any spelling, or a constant that leads to one. Only the number
at the end of the chain counts, as long as it fits 32 bits; what leads to no such number stays as it is written.
- `bound_of_loose`: an expression that leads to no number stands for itself.
- `Decl.makes`: what a declaration adds of its own, behind the type that is declared in it.
- `Decl.share`: two declarations whose bounds have one value, with all that is generated from one to the other.
- `bounds_act_by_value`: declarations whose bounds have one value, and declarations whose bounds have none.
- `foreign_bound_accepted`: a container whose bound is not that of the declaration that gets it.
-/
import Xdr.Proofs.Emission.Containers
import Xdr.Proofs.Emission.Inline
import Xdr.Proofs.Emission.Memo
import Xdr.Proofs.Table.Listed

namespace Xdr

open Code Emission

variable {t : Table} {s s₁ s' : Emission}

/-! ## Values of bounds -/

namespace Table

/-- the expression leads to something that is no number of 32 bits -/
def IsLoose (t : Table) (expr : String) : Prop :=
  t.resolve expr ≠ "" ∧ ∀ v, t.integer? expr = some v → v < 0 ∨ unlimited < v

theorem bound_of_loose {expr : String} (h : t.IsLoose expr) : t.bound expr = .verbatim expr := by
  rw [bound, if_neg h.1]
  cases hv : t.integer? expr with
  | none => rfl
  | some v =>
    have hrange := h.2 v hv
    have hpositive : 0 < unlimited := by decide
    dsimp only
    rw [if_neg (by omega), if_neg (by omega)]

/-- the name of containers with a number for their bound: the base type, and the number in decimal -/
def limitedName (t : Table) (base : String) (n : Nat) : String :=
  underscored ((t.baseType base).map fun c => if c = ' ' then '_' else c) ++ "_" ++ toString n

theorem wrapperName_toString (t : Table) (base : String) (n : Nat) :
    t.wrapperName base (toString n) = t.limitedName base n := by
  rw [wrapperName, wordOf_eq_self (isPlain_toString n)]
  rfl

/-- the name of a container, spelled out -/
theorem wrapperName_of_word {base bound : String} (hbase : t.baseType base = base) (hblank : ' ' ∉ base.toList)
    (hbound : bound.toList.all isWordChar = true) :
    t.wrapperName base bound = "_" ++ stem base ++ "_" ++ bound := by
  have hbase' := typeWord_of_no_blank hblank
  have hbound' : wordOf bound = bound := map_eq_self fun c hc => by
    have hword := List.all_eq_true.1 hbound c hc
    rw [isWordChar] at hword
    split_ifs with hplain
    · rfl
    · simpa [hplain, eq_comm] using hword
  rw [typeWord] at hbase'
  rw [wrapperName, hbase, underscored_eq, hbase', hbound']

end Table

/-- a built-in type is its own base type -/
theorem baseType_of_not_name (ht : t.Reachable) {type : String} (h : isName type = false) : t.baseType type = type :=
  chase_of_forall (by simp [ht.get?_eq_none h])

/-- the container of a plain built-in type with a number for its bound -/
theorem name_container (ht : t.Reachable) {base : String} (hbase : isName base = false) (hplain : stem base = base)
    (hblank : ' ' ∉ base.toList) (q : Qualifier) (m : Nat) :
    Container.name t ⟨q, base, toString m⟩ = "_" ++ base ++ "_" ++ toString m := by
  have hnumber : (toString m).toList.all isWordChar = true :=
    List.all_eq_true.2 fun c hc => Bool.or_eq_true_iff.2 (.inl (isPlain_toString m c hc))
  rw [Container.name, Table.wrapperName_of_word (baseType_of_not_name ht hbase) hblank hnumber, hplain]

/-! ## What a declaration makes -/

/-- a container without a bound -/
def unboundedType (q : Qualifier) (base : String) : TypeExpr := if q = .vec then .vec base else .named base

theorem container_eq_unboundedType {q : Qualifier} {base : String} (h : Table.isBounded q base = true)
    (length : String) : t.container q base length = unboundedType q base := by
  cases q <;> first | rfl | cases h

/-- a declaration of variable length: a vector, or a string -/
def Decl.IsVariable (name : String) (d : Decl) : Prop := Table.isBounded d.qualifier (d.baseName name) = true

/-- the type of a declaration, and what it adds of its own, behind the type that is declared in it: these fragments, and
these warnings -/
structure Decl.Makes (t : Table) (name : String) (d : Decl) (s : Emission) (type : TypeExpr) (new : List Fragment)
    (warnings : List Event) : Prop where
  type : (d.typeAs t name s).1 = type
  fragments : (d.typeAs t name s).2.fragments.toList = (d.inlined t name s).fragments.toList ++ new
  events : (d.typeAs t name s).2.events.toList =
    (d.inlined t name s).events.toList ++ (warnings ++ new.map Fragment.event)

section

variable {name : String} {d : Decl}

theorem Decl.inlined_of_none (h : d.body = none) : d.inlined t name s = s := by
  rw [Decl.inlined, h]

theorem Decl.makes (t : Table) (name : String) (d : Decl) (s : Emission) :
    d.Makes t name s (d.typeExpr t name) (t.added (d.inlined t name s) d.qualifier (d.baseName name) d.bound)
      (t.warnings d.qualifier (d.baseName name) d.bound) := by
  have h := typeOf_gains t d.qualifier (d.baseName name) d.bound (d.inlined t name s)
  rw [← typeAs_snd] at h
  exact ⟨typeAs_fst t name d s, h.fragments, h.events⟩

/-- the container of a declaration under a name and with a bound, if the name is free -/
def Decl.containerAs (t : Table) (name : String) (d : Decl) (s : Emission) (container bound : String) :
    List Fragment :=
  if container ∈ (d.inlined t name s).names then []
  else [.wrapper container (unboundedType d.qualifier (d.baseName name)) bound
    ((Primitive.ofIdlName? (d.baseName name)).any Primitive.isByteSequence)]

/-- a declaration of variable length asks for a container with the text of its bound -/
theorem Decl.IsVariable.container?_eq (hd : d.IsVariable name) (t : Table) :
    t.container? d.qualifier (d.baseName name) d.bound =
      (t.bound d.bound).text?.map (Container.mk d.qualifier (d.baseName name)) :=
  if_pos hd

theorem Decl.IsVariable.warnings_eq (hd : d.IsVariable name) (t : Table) :
    t.warnings d.qualifier (d.baseName name) d.bound = (t.bound d.bound).warnings :=
  if_pos hd

theorem Decl.makes_of_none (hd : d.IsVariable name) (h : t.bound d.bound = .none) (s : Emission) :
    d.Makes t name s (unboundedType d.qualifier (d.baseName name)) [] [] := by
  have hnone : t.container? d.qualifier (d.baseName name) d.bound = none := by
    rw [hd.container?_eq, h]
    rfl
  have hmakes := d.makes t name s
  rwa [Decl.typeExpr, Table.typeExpr, Table.added, hnone, hd.warnings_eq, h, container_eq_unboundedType hd] at hmakes

theorem Decl.makes_of_text (hd : d.IsVariable name) {bound : String} (h : (t.bound d.bound).text? = some bound)
    (s : Emission) : d.Makes t name s (.wrapper (t.wrapperName (d.baseName name) bound))
      (d.containerAs t name s (t.wrapperName (d.baseName name) bound) bound)
      (t.warnings d.qualifier (d.baseName name) d.bound) := by
  have hmakes := d.makes t name s
  rw [Decl.typeExpr, Table.typeExpr, Table.added, hd.container?_eq, h, Option.map_some, Option.toList_some,
    List.flatMap_singleton, Container.added, Container.code] at hmakes
  dsimp only at hmakes
  rwa [container_eq_unboundedType hd] at hmakes

theorem Decl.makes_of_limit (hd : d.IsVariable name) {n : Nat} (h : t.bound d.bound = .limit n) (s : Emission) :
    d.Makes t name s (.wrapper (t.limitedName (d.baseName name) n))
      (d.containerAs t name s (t.limitedName (d.baseName name) n) (toString n)) [] := by
  have hmakes := Decl.makes_of_text hd (show (t.bound d.bound).text? = some (toString n) by rw [h]; rfl) s
  rwa [Table.wrapperName_toString, hd.warnings_eq, h] at hmakes

/-- a declaration claims the name of its container -/
theorem Decl.limitedName_mem (hd : d.IsVariable name) {n : Nat} (h : t.bound d.bound = .limit n) (s : Emission) :
    t.limitedName (d.baseName name) n ∈ (d.typeAs t name s).2.names := by
  have hsome : d.container? t name = some ⟨d.qualifier, d.baseName name, toString n⟩ :=
    (hd.container?_eq t).trans (by rw [h]; rfl)
  have hmem := (settled_typeAs t name d s).container _ hsome
  rwa [Container.name, Table.wrapperName_toString] at hmem

/-- a container that is there is not made again -/
theorem Decl.containerAs_of_mem {container : String} (h : container ∈ s.names) (bound : String) :
    d.containerAs t name s container bound = [] :=
  if_pos ((inlined_grows t name d s).names container h)

end

/-! ## Containers of one name -/

/-- what is generated from `s` to `s'` -/
def Emission.since (s s' : Emission) : List Fragment := s'.fragments.toList.drop s.fragments.size

/-- the containers of this name have this bound -/
def HaveBound (container bound : String) (fs : List Fragment) : Prop :=
  ∀ content b ofBytes, .wrapper container content b ofBytes ∈ fs → b = bound

theorem haveBound_append {container bound : String} {fs fs' : List Fragment} :
    HaveBound container bound (fs ++ fs') ↔ HaveBound container bound fs ∧ HaveBound container bound fs' := by
  simp only [HaveBound, List.mem_append, or_imp, forall_and]

theorem Decl.haveBound_containerAs {name : String} {d : Decl} (container bound : String) :
    HaveBound container bound (d.containerAs t name s container bound) := by
  intro content b ofBytes hf
  unfold Decl.containerAs at hf
  split_ifs at hf
  · cases hf
  · cases List.mem_singleton.1 hf
    rfl

theorem haveBound_of_notMem {container : String} {fs : List Fragment} (h : container ∉ containerNames fs)
    (bound : String) : HaveBound container bound fs := by
  intro content b ofBytes hf
  refine absurd (List.mem_map.2 ⟨_, List.mem_filter.2 ⟨hf, rfl⟩, rfl⟩) h

namespace Emission

theorem since_of_eq_append {new : List Fragment} (h : s'.fragments.toList = s.fragments.toList ++ new) :
    s.since s' = new := by
  rw [since, h, ← Array.length_toList, List.drop_left]

theorem Grows.since_append (h : Grows s s₁) (h' : Grows s₁ s') : s.since s' = s.since s₁ ++ s₁.since s' := by
  obtain ⟨-, new, hnew, -⟩ := h
  obtain ⟨-, new', hnew', -⟩ := h'
  have hboth : s'.fragments.toList = s.fragments.toList ++ (new ++ new') := by rw [hnew', hnew, List.append_assoc]
  rw [since_of_eq_append hnew, since_of_eq_append hnew', since_of_eq_append hboth]

/-- no container is made twice -/
theorem Grows.count_le (h : Grows s s') (container : String) : (containerNames (s.since s')).count container ≤ 1 := by
  obtain ⟨-, new, hnew, hnodup, -⟩ := h
  rw [since_of_eq_append hnew]
  exact List.nodup_iff_count_le_one.1 hnodup container

/-- no container is made under a name that is claimed -/
theorem Grows.notMem_of_mem (h : Grows s s') {container : String} (hname : container ∈ s.names) :
    container ∉ containerNames (s.since s') := by
  obtain ⟨-, new, hnew, -, hfree⟩ := h
  rw [since_of_eq_append hnew]
  exact fun hmem => (hfree container hmem).1 hname

end Emission

/-! ## Two declarations -/

/-- two declarations, one after the other, with one container that has the number for its bound -/
structure Decl.Share (t : Table) (name name' : String) (d d' : Decl) (n : Nat) (s : Emission) (as : List Ask) :
    Prop where
  /-- the first one makes it, unless the name is claimed -/
  first : d.Makes t name s (.wrapper (t.limitedName (d.baseName name) n))
    (d.containerAs t name s (t.limitedName (d.baseName name) n) (toString n)) []
  /-- the second one does not, however much is asked for in between -/
  second : d'.Makes t name' (t.asks (d.typeAs t name s).2 as) (.wrapper (t.limitedName (d.baseName name) n)) [] []
  once : (containerNames (s.since (d'.typeAs t name' (t.asks (d.typeAs t name s).2 as)).2)).count
    (t.limitedName (d.baseName name) n) ≤ 1
  /-- so only what is generated for a type that is declared in the first one may have another bound under the name -/
  literal : HaveBound (t.limitedName (d.baseName name) n) (toString n)
      (s.since (d'.typeAs t name' (t.asks (d.typeAs t name s).2 as)).2) ↔
    HaveBound (t.limitedName (d.baseName name) n) (toString n) (s.since (d.inlined t name s))
  plain : d.body = none → HaveBound (t.limitedName (d.baseName name) n) (toString n)
    (s.since (d'.typeAs t name' (t.asks (d.typeAs t name s).2 as)).2)

theorem Decl.share {name name' : String} {d d' : Decl} {n : Nat} (hd : d.IsVariable name) (hd' : d'.IsVariable name')
    (hbase : t.baseType (d.baseName name) = t.baseType (d'.baseName name')) (h : t.bound d.bound = .limit n)
    (h' : t.bound d'.bound = .limit n) (s : Emission) (as : List Ask) : d.Share t name name' d' n s as := by
  have hfirst := Decl.makes_of_limit hd h s
  have hsecond := Decl.makes_of_limit hd' h' (t.asks (d.typeAs t name s).2 as)
  have hasks := asks_grow t (d.typeAs t name s).2 as
  have hrest := hasks.trans (typeAs_grows t name' d' _)
  have hclaimed := Decl.limitedName_mem hd h s
  have hname : t.limitedName (d'.baseName name') n = t.limitedName (d.baseName name) n := by
    rw [Table.limitedName, Table.limitedName, hbase]
  rw [hname, Decl.containerAs_of_mem (hasks.names _ hclaimed)] at hsecond
  have hown : Grows (d.inlined t name s) (d.typeAs t name s).2 := by
    rw [typeAs_snd]
    exact typeOf_grows t _ _ _ _
  have hliteral : HaveBound (t.limitedName (d.baseName name) n) (toString n)
        (s.since (d'.typeAs t name' (t.asks (d.typeAs t name s).2 as)).2) ↔
      HaveBound (t.limitedName (d.baseName name) n) (toString n) (s.since (d.inlined t name s)) := by
    rw [(inlined_grows t name d s).since_append (hown.trans hrest), hown.since_append hrest,
      since_of_eq_append hfirst.fragments, haveBound_append, haveBound_append]
    exact and_iff_left ⟨Decl.haveBound_containerAs _ _, haveBound_of_notMem (hrest.notMem_of_mem hclaimed) _⟩
  refine ⟨hfirst, hsecond, ((typeAs_grows t name d s).trans hrest).count_le _, hliteral, fun hbody => hliteral.2 ?_⟩
  rw [d.inlined_of_none hbody, since_of_eq_append (List.append_nil _).symm]
  exact haveBound_of_notMem List.not_mem_nil _

/-- how bounds act in the declarations of a table, in every state -/
structure Table.BoundsByValue (t : Table) : Prop where
  /-- the number for none: a container without a bound, and nothing else -/
  unlimited : ∀ (name : String) (d : Decl) (s : Emission), d.IsVariable name →
    t.integer? d.bound = some Xdr.unlimited → d.Makes t name s (unboundedType d.qualifier (d.baseName name)) [] []
  /-- one number below it in two declarations -/
  limited : ∀ (name name' : String) (d d' : Decl) (n : Nat), d.IsVariable name → d'.IsVariable name' →
    t.baseType (d.baseName name) = t.baseType (d'.baseName name') →
    t.integer? d.bound = some (n : Int) → t.integer? d'.bound = some (n : Int) → (n : Int) < Xdr.unlimited →
    ∀ (s : Emission) (as : List Ask), d.Share t name name' d' n s as
  /-- no number of 32 bits: each resolution passes the expression on as it is written, with one warning -/
  resolution : ∀ (expr : String) (s : Emission), t.IsLoose expr →
    t.boundOf expr s = (.verbatim expr, { s with events := s.events.push (.looseBound expr) })
  /-- so the expression is the bound of the container, and the declaration has one warning -/
  loose : ∀ (name : String) (d : Decl) (s : Emission), d.IsVariable name → t.IsLoose d.bound →
    d.Makes t name s (.wrapper (t.wrapperName (d.baseName name) d.bound))
      (d.containerAs t name s (t.wrapperName (d.baseName name) d.bound) d.bound) [.looseBound d.bound]

/-- **Bounds act through their values.** For every table, and declarations of variable length in every state: the number
that stands for no bound gives a plain container; two declarations of one base type whose bounds lead to one smaller
number get one container, named by the base type and the number in decimal, made at most once, and its bound is the
number in decimal exactly when no other one was made under the name for a type that is declared in the declaration; an
expression that leads to no number of 32 bits is passed on as it is written, with one warning each time. -/
theorem bounds_act_by_value (t : Table) : t.BoundsByValue where
  unlimited name d s hd h := by
    refine Decl.makes_of_none hd ?_ s
    rw [Table.bound_of_integer h, if_pos rfl]
  limited name name' d d' n hd hd' hbase h h' hn :=
    Decl.share hd hd' hbase (Table.bound_of_lt h hn) (Table.bound_of_lt h' hn)
  resolution expr s h := by
    rw [Table.boundOf, Table.bound_of_loose h]
    rfl
  loose name d s hd h := by
    have hbound := Table.bound_of_loose h
    have hmakes := Decl.makes_of_text hd (show (t.bound d.bound).text? = some d.bound by rw [hbound]; rfl) s
    rwa [hd.warnings_eq, hbound] at hmakes

/-- a number behind two constants, and the number as it is -/
def limits : List Definition := [.const "LIMIT" "LENGTH", .const "LENGTH" "0x20"]

/-- a string with a bound -/
def boundedString (bound : String) : Decl := { id := "text", typeName := "string", bound := bound }

theorem bounds_act_by_value_sample : ∃ t : Table, Table.empty.addSource (schemaText limits) = (t, .ok 2) ∧
    t.integer? "LIMIT" = some 32 ∧ t.integer? "040" = some 32 ∧
    (boundedString "LIMIT").Makes t "" {} (.wrapper "_string_32")
      [.wrapper "_string_32" (.named "string") "32" true] [] ∧
    (boundedString "040").Makes t "" ((boundedString "LIMIT").typeAs t "" {}).2 (.wrapper "_string_32") [] [] := by
  have hg : ∀ d ∈ limits, d.grammatical = true := by decide
  obtain ⟨t, hadd, ht, hds⟩ := exists_table_of_acceptable hg (by decide)
  have hchain : t.integer? "LIMIT" = some 32 := by
    rw [ht.integer?_eq_listed hds]
    decide
  have hplain : t.integer? "040" = some 32 := by
    rw [ht.integer?_eq_listed hds]
    decide
  have hname : t.limitedName "string" 32 = "_string_32" := by
    rw [← Table.wrapperName_toString]
    exact (name_container ht (by decide) (by decide) (by decide) .scalar 32).trans (by decide)
  have hmade : (boundedString "LIMIT").containerAs t "" {} "_string_32" (toString 32) =
      [.wrapper "_string_32" (.named "string") "32" true] := by
    rw [Decl.containerAs, if_neg (by simp [boundedString, Decl.inlined])]
    decide
  obtain ⟨hfirst, hsecond, -, -, -⟩ := (bounds_act_by_value t).limited "" "" (boundedString "LIMIT")
    (boundedString "040") 32 rfl rfl rfl hchain hplain (by decide) {} []
  rw [show (boundedString "LIMIT").baseName "" = "string" from rfl, hname] at hfirst hsecond
  rw [hmade] at hfirst
  exact ⟨t, hadd, hchain, hplain, hfirst, hsecond⟩

/-- a vector of structs, the struct declared in it with a vector whose bound is no number -/
def outerVector : Decl :=
  ⟨"a", "", .vec, "5", some (.struct "" [⟨"x", "S", .vec, "a_5", none⟩])⟩

/-- **A schema is accepted, and a bound is not the one that is declared.** The container of the vector inside has the name
that the outer one asks for, and so the outer one, of at most 5, gets the bound `a_5`. -/
theorem foreign_bound_accepted : ∃ t : Table,
    Table.empty.addSource (schemaText [.struct "S" [outerVector]]) = (t, .ok 1) ∧
    (Definition.struct "S" [outerVector]).inlineName outerVector.id = "_S_a" ∧ outerVector.IsVariable "_S_a" ∧
    t.integer? outerVector.bound = some 5 ∧ t.limitedName "_S_a" 5 = "_S_a_5" ∧
    (outerVector.typeAs t "_S_a" {}).1 = .wrapper "_S_a_5" ∧
    (outerVector.typeAs t "_S_a" {}).2.fragments.toList =
      [.wrapper "_S_a_5" (.vec "S") "a_5" false, .struct "_S_a" [⟨"x", .wrapper "_S_a_5"⟩]] ∧
    ¬ HaveBound "_S_a_5" "5" (Emission.since {} (outerVector.typeAs t "_S_a" {}).2) := by
  have hg : ∀ d ∈ [Definition.struct "S" [outerVector]], d.grammatical = true := by decide
  obtain ⟨t, hadd, ht, hds⟩ := exists_table_of_acceptable hg (by decide)
  have hmem : ∀ d ∈ t.definitions, d = .struct "S" [outerVector] := fun d hd => by
    rwa [← Array.mem_toList_iff, hds, List.mem_singleton] at hd
  have hfive : t.integer? "5" = some 5 := by
    rw [ht.integer?_eq_listed hds]
    decide
  have hlimit : t.bound "5" = .limit 5 := Table.bound_of_lt hfive (by decide)
  have hloose : t.bound "a_5" = .verbatim "a_5" := by
    rw [Table.bound, ht.integer?_eq_listed hds, ht.resolve_eq_listed hds]
    decide
  have hbase : ∀ x, t.baseType x = x := fun x => baseType_eq_self ht fun d hd _ => by
    rw [hmem d hd]
    rfl
  have hinline : memberTypeName "S" "a" = "_S_a" := (memberTypeName_eq _ _).trans (by decide)
  have houter : t.wrapperName "_S_a" "5" = "_S_a_5" :=
    (Table.wrapperName_of_word (hbase _) (by decide) (by decide)).trans (by decide)
  have hinner : t.wrapperName "S" "a_5" = "_S_a_5" :=
    (Table.wrapperName_of_word (hbase _) (by decide) (by decide)).trans (by decide)
  have hname : t.limitedName "_S_a" 5 = "_S_a_5" := (t.wrapperName_toString "_S_a" 5).symm.trans houter
  have hvariable : outerVector.IsVariable "_S_a" := rfl
  have htype : (outerVector.typeAs t "_S_a" {}).1 = .wrapper (t.limitedName "_S_a" 5) :=
    (Decl.makes_of_limit hvariable hlimit {}).type
  have hfragments : (outerVector.typeAs t "_S_a" {}).2.fragments.toList =
      [.wrapper "_S_a_5" (.vec "S") "a_5" false, .struct "_S_a" [⟨"x", .wrapper "_S_a_5"⟩]] := by
    have hbytes : (Primitive.ofIdlName? "S").any Primitive.isByteSequence = false := by decide
    have hrepr : Nat.repr 5 = "5" := by decide
    simp [outerVector, Decl.typeAs, Definition.emitAs, emitFields, run_bind, run_map, run_pure, run_claim, run_push,
      run_report, Table.typeOf, Table.isBounded, Primitive.idlName, Table.container, Table.boundOf, hlimit, hloose,
      houter, hinner, hrepr, hbytes, Bound.text?, Table.materialize]
  refine ⟨t, hadd, hinline, hvariable, hfive, hname, hname ▸ htype, hfragments, fun h => ?_⟩
  rw [since_of_eq_append (s := {}) hfragments] at h
  exact absurd (h _ _ _ List.mem_cons_self) (by decide)

end Xdr
