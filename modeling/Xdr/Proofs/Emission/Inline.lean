/-
Inline types, each generated from its own body.

A type declared inline is left out when its name is claimed already: by another inline type, or by a container.
- `generatesEach_iff`: every inline type is generated from its own body, and every container is, exactly when the names
  that are made for inline types are different from one another and from those of containers.
- `inlineApart_of_oneParted`: they are different where names hold no underscore and bounds are numbers.
- `generatesEach_iff_inlineApart`: both for every reachable table.
- `hidden_accepted`: a schema that is accepted and leaves an inline type out.
-/
import Xdr.Proofs.Emission.Claims

namespace Xdr

open Code

variable {t : Table} {es : List Demand}

/-! ## One fragment for each -/

/-- the code of an inline type or of a definition, made of its own body; a container has none here -/
def Demand.definitionCode? (t : Table) : Demand → Option Fragment
  | .inline name b => b.codeAs t name
  | .container _ => none
  | .declared d => d.codeAs t d.id

/-- every inline type and every definition is generated from its own body, in the order in which the schema asks for
them, and every container is generated under its name -/
structure Table.GeneratesEach (t : Table) : Prop where
  definitions : (t.emission.fragments.toList.filter fun f => !f.isContainer) =
    t.demands.filterMap (Demand.definitionCode? t)
  containers : ∀ c ∈ containers t.demands, ∃ f ∈ t.emission.fragments, f.isContainer = true ∧ f.name = c.name t

theorem definitionCode?_eq (e : Demand) : e.definitionCode? t =
    ((e.product? t).filter fun p => !p.fragment.isContainer).map Product.fragment := by
  cases e with
  | container c => rfl
  | inline name b =>
    cases h : b.codeAs t name with
    | none => simp [Demand.definitionCode?, Demand.product?, h]
    | some f => simp [Demand.definitionCode?, Demand.product?, h, Option.filter_some, isContainer_of_codeAs h]
  | declared d =>
    cases h : d.codeAs t d.id with
    | none => simp [Demand.definitionCode?, Demand.product?, h]
    | some f => simp [Demand.definitionCode?, Demand.product?, h, Option.filter_some, isContainer_of_codeAs h]

theorem filterMap_definitionCode? (t : Table) (es : List Demand) : es.filterMap (Demand.definitionCode? t) =
    ((es.filterMap (Demand.product? t)).filter fun p => !p.fragment.isContainer).map Product.fragment := by
  rw [List.filter_filterMap, List.map_filterMap]
  exact List.filterMap_congr fun e _ => definitionCode?_eq e

/-- the claimed products besides containers have the names of the inline types -/
theorem claimedNames_filterMap_product? (hbody : ∀ name b, .inline name b ∈ es → b.isBody = true) :
    claimedNames ((es.filterMap (Demand.product? t)).filter fun p => !p.fragment.isContainer) = inlineNames es := by
  induction es with
  | nil => rfl
  | cons e es ih =>
    have ih := ih fun name b h => hbody name b (List.mem_cons_of_mem e h)
    cases e with
    | container c => exact ih
    | inline name b =>
      obtain ⟨f, hcode⟩ := exists_codeAs_of_isBody t name (hbody name b List.mem_cons_self)
      have hproduct : Demand.product? t (.inline name b) = some ⟨true, f⟩ := by simp [Demand.product?, hcode]
      rw [List.filterMap_cons_some hproduct, List.filter_cons_of_pos (by simp [isContainer_of_codeAs hcode])]
      have hcons : claimedNames (⟨true, f⟩ :: ((es.filterMap (Demand.product? t)).filter fun p =>
          !p.fragment.isContainer)) = f.name :: inlineNames es := congrArg (List.cons f.name) ih
      rw [hcons, name_of_codeAs hcode]
      rfl
    | declared d =>
      change _ = inlineNames es
      rw [← ih]
      cases hcode : d.codeAs t d.id with
      | none => simp [Demand.product?, hcode]
      | some f => simp [Demand.product?, hcode, claimedNames, isContainer_of_codeAs hcode]

/-- claimed names are different, so claimed products of one name are one -/
theorem Generates.eq_of_name_eq {ns ns' : Std.HashSet String} {new : List Product} (h : Generates t es ns ns' new)
    {p q : Product} (hp : p ∈ new) (hq : q ∈ new) (hpc : p.claimed = true) (hqc : q.claimed = true)
    (hname : p.name = q.name) : p = q :=
  List.inj_on_of_nodup_map h.nodup (List.mem_filter.2 ⟨hp, hpc⟩) (List.mem_filter.2 ⟨hq, hqc⟩) hname

theorem generatesEach_of_inlineApart (hd : ∀ d ∈ t.definitions, d.grammatical = true)
    (hapart : InlineApart t t.demands) : t.GeneratesEach := by
  obtain ⟨new, hfragments, hg⟩ := emission_answers hd
  have hfilter := (hg.complete hapart fun _ _ => Std.HashSet.not_mem_empty).1
  refine ⟨?_, exists_container_fragment hd hapart⟩
  rw [hfragments, List.nil_append, filterMap_definitionCode?, ← hfilter, List.filter_map]
  rfl

theorem inlineApart_of_generatesEach (hd : ∀ d ∈ t.definitions, d.grammatical = true) (h : t.GeneratesEach) :
    InlineApart t t.demands := by
  obtain ⟨new, hfragments, hg⟩ := emission_answers hd
  rw [List.nil_append] at hfragments
  let isDefinition : Product → Bool := fun p => !p.fragment.isContainer
  -- a part of what is asked for that has all its definitions leaves none out
  have hall : new.filter isDefinition = (t.demands.filterMap (Demand.product? t)).filter isDefinition := by
    refine (hg.sublist.filter isDefinition).eq_of_length ?_
    have hlength := congrArg List.length h.definitions
    rw [hfragments, filterMap_definitionCode?, List.filter_map, List.length_map, List.length_map] at hlength
    exact hlength
  have hnames : claimedNames (new.filter isDefinition) = inlineNames t.demands := by
    rw [hall]
    exact claimedNames_filterMap_product? (isBody_of_mem_demands hd)
  refine ⟨?_, fun c hc hinline => ?_⟩
  · rw [← hnames]
    exact hg.nodup.sublist ((List.filter_sublist.filter _).map _)
  · rw [← hnames] at hinline
    obtain ⟨p, hp, hname⟩ := List.mem_map.1 hinline
    obtain ⟨hp, hpc⟩ := List.mem_filter.1 hp
    obtain ⟨hp, hdefinition⟩ := List.mem_filter.1 hp
    obtain ⟨f, hf, hcontainer, hfname⟩ := h.containers c hc
    rw [← Array.mem_toList_iff, hfragments] at hf
    obtain ⟨q, hq, rfl⟩ := List.mem_map.1 hf
    obtain rfl := hg.eq_of_name_eq hp hq hpc (hg.claimed_of_isContainer hq hcontainer) (hname.trans hfname.symm)
    simp [isDefinition, hcontainer] at hdefinition

/-- every inline type is generated from its own body exactly when the names made for inline types are their own -/
theorem generatesEach_iff (hd : ∀ d ∈ t.definitions, d.grammatical = true) :
    t.GeneratesEach ↔ InlineApart t t.demands :=
  ⟨inlineApart_of_generatesEach hd, generatesEach_of_inlineApart hd⟩

/-! ## Names in one part -/

/-- no value at any depth of a definition has a name with an underscore -/
def Definition.PlainValues (d : Definition) : Prop :=
  ∀ e : Definition, e.Within d → ∀ m ∈ e.values, '_' ∉ m.id.toList

/-- names of definitions and of values hold no underscore, and bounds are numbers -/
structure Table.OneParted (t : Table) : Prop where
  definitions : ∀ d ∈ t.definitions, '_' ∉ d.id.toList
  values : ∀ d ∈ t.definitions, d.PlainValues
  bounds : ∀ c ∈ containers t.demands, ∃ n : Nat, c.bound = toString n

theorem Definition.PlainValues.body {d b : Definition} {m : Decl} (h : d.PlainValues) (hm : m ∈ d.values)
    (hb : m.body = some b) : b.PlainValues :=
  fun e he => h e (.body he (mem_decls_of_mem_values hm) hb)

theorem inlineNames_of_named {d : Decl} (hb : d.body = none) (t : Table) (name : String) :
    inlineNames (d.demandsAs t name) = [] := by
  rw [Decl.demandsAs_of_named hb]
  cases d.container? t name <;> rfl

theorem inlineNames_of_body {d : Decl} {b : Definition} (hb : d.body = some b) (t : Table) (name : String) :
    inlineNames (d.demandsAs t name) = inlineNames (b.demandsAs t name) ++ [name] := by
  rw [Decl.demandsAs_of_body hb]
  cases d.container? t name <;> simp [inlineNames, Demand.inlineName?]

theorem inlineNames_demandsAs (t : Table) (name : String) (d : Definition) :
    inlineNames (d.demandsAs t name) = d.values.flatMap fun m =>
      inlineNames (m.demandsAs t (d.innerName name m.id)) := by
  rw [d.demandsAs_eq]
  exact List.filterMap_flatMap

section

variable {P : String → Prop} (hstep : ∀ (name : String) (m : Decl), m.grammatical = true → '_' ∉ m.id.toList →
  P name → P (name ++ "_" ++ m.id))

include hstep

/-- what goes from the name of a type to those of its values holds of all names inside of it -/
theorem forall_inlineNames_of_values {d : Definition} (hd : d.grammaticalBody = true) (hplain : d.PlainValues)
    {name : String} (hname : P (underscored name))
    (hvalues : ∀ m ∈ d.values, ∀ n : String, n.startsWith "_" = true → P n →
      ∀ x ∈ inlineNames (m.demandsAs t n), P x) : ∀ x ∈ inlineNames (d.demandsAs t name), P x := by
  intro x hx
  rw [inlineNames_demandsAs] at hx
  obtain ⟨m, hm, hx⟩ := List.mem_flatMap.1 hx
  refine hvalues m hm _ (d.startsWith_innerName name m.id) ?_ x hx
  cases d with
  | typedef e => exact hname
  | _ => exact hstep _ m (Definition.grammatical_of_mem_values hd hm) (hplain _ (.self _) m hm) hname

theorem forall_inlineNames (d : Decl) : ∀ name : String, name.startsWith "_" = true → d.grammatical = true →
    (∀ b, d.body = some b → b.PlainValues) → P name → ∀ x ∈ inlineNames (d.demandsAs t name), P x := by
  induction d using Decl.induction with
  | h d ih =>
    intro name hmark hd hplain hname
    cases hb : d.body with
    | none =>
      rw [inlineNames_of_named hb]
      exact nofun
    | some b =>
      rw [inlineNames_of_body hb, List.forall_mem_append, List.forall_mem_singleton]
      have hbody := Decl.grammaticalBody_of_body hd hb
      refine ⟨forall_inlineNames_of_values hstep hbody (hplain b hb) ?_ fun m hm n hn hP => ?_, hname⟩
      · rwa [underscored_of_startsWith hmark]
      · exact ih b hb m hm n hn (Definition.grammatical_of_mem_values hbody hm)
          (fun _ => (hplain b hb).body hm) hP

theorem forall_inlineNames_demandsAs {d : Definition} (hd : d.grammaticalBody = true) (hplain : d.PlainValues)
    {name : String} (hname : P (underscored name)) : ∀ x ∈ inlineNames (d.demandsAs t name), P x :=
  forall_inlineNames_of_values hstep hd hplain hname fun m hm n hn =>
    forall_inlineNames hstep m n hn (Definition.grammatical_of_mem_values hd hm) fun _ => hplain.body hm

end

/-- names of inline types go on behind the name of the type they are in -/
theorem below_of_mem_inlineNames {d : Definition} (hd : d.grammaticalBody = true) (hplain : d.PlainValues)
    (name : String) : ∀ x ∈ inlineNames (d.demandsAs t name), Below (underscored name) x :=
  forall_inlineNames_demandsAs (fun _ m _ _ h => h.append m.id) hd hplain (.inl rfl)

theorem below_of_mem_inlineNames_decl {d : Decl} (hd : d.grammatical = true)
    (hplain : ∀ b, d.body = some b → b.PlainValues) {name : String} (hmark : name.startsWith "_" = true) :
    ∀ x ∈ inlineNames (d.demandsAs t name), Below name x :=
  forall_inlineNames (fun _ m _ _ h => h.append m.id) d name hmark hd hplain (.inl rfl)

/-- the inline types of a definition have different names where those of each value have -/
theorem nodup_inlineNames_of_values {d : Definition} (hd : d.grammaticalBody = true) (hv : d.validate = .ok ())
    (hplain : d.PlainValues) (name : String)
    (hvalues : ∀ m ∈ d.values, ∀ n : String, n.startsWith "_" = true → (inlineNames (m.demandsAs t n)).Nodup) :
    (inlineNames (d.demandsAs t name)).Nodup := by
  rw [inlineNames_demandsAs]
  have hnodup : ∀ m ∈ d.values, (inlineNames (m.demandsAs t (d.innerName name m.id))).Nodup := fun m hm =>
    hvalues m hm _ (d.startsWith_innerName name m.id)
  have hids := Definition.values_nodup hv
  have hbelow : ∀ m ∈ d.values, ∀ x ∈ inlineNames (m.demandsAs t (d.innerName name m.id)),
      Below (d.innerName name m.id) x := fun m hm =>
    below_of_mem_inlineNames_decl (Definition.grammatical_of_mem_values hd hm) (fun _ => hplain.body hm)
      (d.startsWith_innerName name m.id)
  cases d with
  | typedef e => simpa [Definition.values, Definition.decls] using hnodup e List.mem_cons_self
  | _ => exact nodup_flatMap_below (underscored name ++ "_") hids (hplain _ (.self _)) hnodup hbelow

theorem nodup_inlineNames_decl (t : Table) (d : Decl) : ∀ name : String, name.startsWith "_" = true →
    d.grammatical = true → (∀ b, d.body = some b → b.validate = .ok () ∧ b.PlainValues) →
    (inlineNames (d.demandsAs t name)).Nodup := by
  induction d using Decl.induction with
  | h d ih =>
    intro name hmark hd hbodies
    cases hb : d.body with
    | none =>
      rw [inlineNames_of_named hb]
      exact List.nodup_nil
    | some b =>
      obtain ⟨hv, hplain⟩ := hbodies b hb
      have hbody := Decl.grammaticalBody_of_body hd hb
      rw [inlineNames_of_body hb, List.nodup_append']
      refine ⟨nodup_inlineNames_of_values hbody hv hplain name fun m hm n hn => ?_, List.nodup_singleton _, ?_⟩
      · refine ih b hb m hm n hn (Definition.grammatical_of_mem_values hbody hm) fun b' hb' => ⟨?_, hplain.body hm hb'⟩
        exact Definition.validate_of_mem_decls hbody hv (Definition.mem_decls_of_mem_values hm) hb'
      · -- the names inside are longer
        intro x hx hx'
        rw [List.mem_singleton.1 hx', inlineNames_demandsAs] at hx
        obtain ⟨m, hm, hx⟩ := List.mem_flatMap.1 hx
        have hbelow := below_of_mem_inlineNames_decl (Definition.grammatical_of_mem_values hbody hm)
          (fun _ => hplain.body hm) (b.startsWith_innerName name m.id) name hx
        rw [Definition.innerName_of_isBody (Decl.isBody_of_body hd hb), underscored_of_startsWith hmark] at hbelow
        exact hbelow.ne_of_append rfl

/-- inline types of a table have different names where names are in one part -/
theorem nodup_inlineNames_demands (hs : t.Sound) (hids : (t.definitions.toList.map Definition.id).Nodup)
    (hparts : t.OneParted) : (inlineNames t.demands).Nodup := by
  have hdemands : inlineNames t.demands = t.definitions.toList.flatMap fun d => inlineNames (d.demandsAs t d.id) := by
    rw [Table.demands, inlineNames, List.filterMap_flatMap]
    refine congrArg (fun f => List.flatMap f _) (funext fun d => ?_)
    simp [inlineNames, Demand.inlineName?]
  have hbody : ∀ d ∈ t.definitions, d.grammaticalBody = true := fun d hd =>
    (Bool.and_eq_true_iff.1 (hs.grammatical d hd)).2
  rw [hdemands]
  refine nodup_flatMap_below "_" hids (fun d hd => ?_) (fun d hd => ?_) fun d hd => ?_
  all_goals rw [Array.mem_toList_iff] at hd
  · exact hparts.definitions d hd
  · refine nodup_inlineNames_of_values (hbody d hd) (hs.valid d hd) (hparts.values d hd) d.id fun m hm n hn => ?_
    refine nodup_inlineNames_decl t m n hn (Definition.grammatical_of_mem_values (hbody d hd) hm) fun b hb =>
      ⟨?_, (hparts.values d hd).body hm hb⟩
    exact Definition.validate_of_mem_decls (hbody d hd) (hs.valid d hd) (Definition.mem_decls_of_mem_values hm) hb
  · intro x hx
    have hbelow := below_of_mem_inlineNames (hbody d hd) (hparts.values d hd) d.id x hx
    rwa [underscored_of_plain (hparts.definitions d hd)] at hbelow

/-- the last part is a name -/
def EndsInName (x : String) : Prop := ∃ a name : String, x = a ++ "_" ++ name ∧ '_' ∉ name.toList ∧ isName name = true

theorem endsInName_of_mem_inlineNames {d : Definition} (hd : d.grammatical = true) (hid : '_' ∉ d.id.toList)
    (hplain : d.PlainValues) : ∀ x ∈ inlineNames (d.demandsAs t d.id), EndsInName x := by
  obtain ⟨hname, hbody⟩ := Bool.and_eq_true_iff.1 hd
  refine forall_inlineNames_demandsAs (fun n m hm hplain _ => ?_) hbody hplain ?_
  · exact ⟨n, m.id, rfl, hplain, Decl.isName_of_grammatical hm⟩
  · exact ⟨"", d.id, by simp [underscored_of_plain hid], hid, hname⟩

/-- digits make a number, and no name -/
theorem toList_toString (n : Nat) : ∃ c r, (toString n).toList = c :: r ∧ ∀ x ∈ c :: r, x.isDigit = true := by
  have hdigits : (toString n).toList = Nat.toDigits 10 n := by
    rw [Nat.toString_eq_repr, Nat.repr_eq_ofList_toDigits, String.toList_ofList]
  obtain ⟨c, r, hcr⟩ := List.exists_cons_of_ne_nil (Nat.toDigits_ne_nil : Nat.toDigits 10 n ≠ [])
  refine ⟨c, r, hdigits.trans hcr, fun x hx => ?_⟩
  rw [← hcr] at hx
  exact Nat.isDigit_of_mem_toDigits (by decide) (by decide) hx

theorem isName_toString (n : Nat) : isName (toString n) = false := by
  obtain ⟨c, r, hcr, hdigits⟩ := toList_toString n
  have hletter : (c.isAlpha || c = '_') = false := by
    rw [← Bool.not_eq_true]
    intro h
    exact absurd ((not_isDigit_of_isAlpha h).1.symm.trans (hdigits c List.mem_cons_self)) (by decide)
  rw [isName, isWord, hcr]
  simp [hletter]

theorem isPlain_toString (n : Nat) : IsPlain (toString n) := by
  obtain ⟨c, r, hcr, hdigits⟩ := toList_toString n
  intro x hx
  rw [hcr] at hx
  simp [Char.isAlphanum, hdigits x hx]

/-- a container with a number for its bound has the name of no inline type -/
theorem name_ne_of_endsInName {c : Container} {n : Nat} (hc : c.bound = toString n) {x : String} (hx : EndsInName x) :
    c.name t ≠ x := by
  obtain ⟨a, name, rfl, hplain, hname⟩ := hx
  obtain ⟨d, r, hdr, hdigits⟩ := toList_toString n
  have hword : Table.wordOf c.bound = toString n := by
    rw [hc]
    exact wordOf_eq_self (isPlain_toString n)
  have hdigit : '_' ∉ (toString n).toList := by
    rw [hdr]
    exact fun h => absurd (hdigits '_' h) (by decide)
  intro heq
  rw [Container.name, Table.wrapperName, hword, joined_eq_iff hdigit hplain] at heq
  rw [← heq.2, isName_toString] at hname
  cases hname

/-- inline types have names of their own where names are in one part -/
theorem inlineApart_of_oneParted (hs : t.Sound) (hids : (t.definitions.toList.map Definition.id).Nodup)
    (hparts : t.OneParted) : InlineApart t t.demands := by
  refine ⟨nodup_inlineNames_demands hs hids hparts, fun c hc hname => ?_⟩
  obtain ⟨n, hn⟩ := hparts.bounds c hc
  obtain ⟨b, hb⟩ := mem_inlineNames.1 hname
  obtain ⟨d, hd, hb | hb⟩ := Table.mem_demands.1 hb
  · have hends := endsInName_of_mem_inlineNames (hs.grammatical d hd) (hparts.definitions d hd)
      (hparts.values d hd) _ (mem_inlineNames.2 ⟨b, hb⟩)
    exact name_ne_of_endsInName hn hends rfl
  · cases hb

/-! ## Every table -/

/-- **Every inline type is generated as itself where the names made for inline types are their own.** What is generated
for a reachable table has one fragment for each inline type, made of its own body, and one for each container, exactly
when no two inline types have one name and none has the name of a container. They have where no name of a definition or
of a value holds an underscore and every bound is a number. -/
theorem generatesEach_iff_inlineApart {t : Table} (ht : t.Reachable) :
    (t.GeneratesEach ↔ InlineApart t t.demands) ∧ (t.OneParted → InlineApart t t.demands) :=
  ⟨generatesEach_iff ht.sound.grammatical, inlineApart_of_oneParted ht.sound ht.ids_nodup⟩

theorem nestedStruct_oneParted : (Table.empty.extend nestedStruct).OneParted := by
  have hname : memberTypeName "S" "a" = "_S_a" := (memberTypeName_eq _ _).trans (by decide)
  have hcontainers : containers (Table.empty.extend nestedStruct).demands = [] := by
    simp [demands_extend_empty, nestedStruct, Definition.demandsAs, fieldDemands, Decl.demandsAs, Definition.id, hname,
      Table.container?, Table.isBounded, Primitive.idlName, containers, Demand.container?]
  refine ⟨by simp [Table.extend, Table.empty, nestedStruct, Definition.id], fun d hd e he m hm => ?_, ?_⟩
  swap
  · rw [hcontainers]
    exact List.forall_mem_nil _
  obtain rfl : d = nestedStruct := by simpa [Table.extend, Table.empty] using hd
  cases he with
  | self =>
    obtain rfl := List.mem_singleton.1 hm
    decide
  | body he hdecl hb =>
    obtain rfl := List.mem_singleton.1 hdecl
    cases hb
    cases he with
    | self =>
      obtain rfl := List.mem_singleton.1 hm
      decide
    | body he hdecl hb =>
      obtain rfl := List.mem_singleton.1 hdecl
      cases hb

theorem generatesEach_iff_inlineApart_sample : (Table.empty.extend nestedStruct).Reachable ∧
    (Table.empty.extend nestedStruct).OneParted ∧ (Table.empty.extend nestedStruct).GeneratesEach := by
  obtain ⟨hiff, hparts⟩ := generatesEach_iff_inlineApart nestedStruct_reachable
  exact ⟨nestedStruct_reachable, nestedStruct_oneParted, hiff.2 (hparts nestedStruct_oneParted)⟩

/-- two inline types of one name: `b_c` of `A`, and `c` of `b` of `A` -/
def hidden : Definition :=
  .struct "A" [⟨"b_c", "", .scalar, "", some (.struct "" [⟨"x", "int", .scalar, "", none⟩])⟩,
    ⟨"b", "", .scalar, "", some (.struct "" [
      ⟨"c", "", .scalar, "", some (.struct "" [⟨"y", "hyper", .scalar, "", none⟩])⟩])⟩]

/-- **A schema is accepted, two of its inline types have one name, and one of them is left out.** -/
theorem hidden_accepted : Table.empty.addSource (schemaText [hidden]) = (Table.empty.extend hidden, .ok 1) ∧
    inlineNames (Table.empty.extend hidden).demands = ["_A_b_c", "_A_b_c", "_A_b"] ∧
    (Table.empty.extend hidden).emission.fragments.toList =
      [.struct "_A_b_c" [⟨"x", .named "int"⟩], .struct "_A_b" [⟨"c", .named "_A_b_c"⟩],
        .struct "A" [⟨"b_c", .named "_A_b_c"⟩, ⟨"b", .named "_A_b"⟩]] ∧
    ¬ (Table.empty.extend hidden).GeneratesEach := by
  have hbc : memberTypeName "A" "b_c" = "_A_b_c" := (memberTypeName_eq _ _).trans (by decide)
  have hb : memberTypeName "A" "b" = "_A_b" := (memberTypeName_eq _ _).trans (by decide)
  have hc : memberTypeName "_A_b" "c" = "_A_b_c" := (memberTypeName_eq _ _).trans (by decide)
  have hrun : ∀ t : Table, (hidden.emit t {}).2.fragments.toList =
      [.struct "_A_b_c" [⟨"x", .named "int"⟩], .struct "_A_b" [⟨"c", .named "_A_b_c"⟩],
        .struct "A" [⟨"b_c", .named "_A_b_c"⟩, ⟨"b", .named "_A_b"⟩]] := by
    simp [hidden, Definition.emit, Definition.emitAs, emitFields, Decl.typeAs, Definition.id, run_bind, run_map,
      run_pure, run_claim, run_push, hbc, hb, hc, Table.typeOf, Table.isBounded, Primitive.idlName, Table.container]
  have hnames : inlineNames (Table.empty.extend hidden).demands = ["_A_b_c", "_A_b_c", "_A_b"] := by
    simp [demands_extend_empty, hidden, Definition.demandsAs, fieldDemands, Decl.demandsAs, Definition.id, hbc, hb, hc,
      Table.container?, Table.isBounded, Primitive.idlName, inlineNames, Demand.inlineName?]
  refine ⟨Table.addSource_schemaText (by decide) rfl rfl, hnames, hrun _, fun h => ?_⟩
  have hnodup := (inlineApart_of_generatesEach ?_ h).nodup
  · rw [hnames] at hnodup
    exact absurd hnodup (by decide)
  · intro d hd
    obtain rfl : d = hidden := by simpa [Table.extend, Table.empty] using hd
    decide

end Xdr
