/-
The names of the types that are generated.

Types of the schema go by their own names; inline types and containers go by names that are made for them and claimed.
- `typeNames_perm`: the types that are generated are those of the schema, and one for each claimed name.
- `typeNames_nodup_iff`: types have different names exactly when no type of the schema has a claimed name.
- `doubled_accepted`: a schema that is accepted and has two types of one name.
-/
import Mathlib.Data.List.Perm.Basic
import Xdr.Proofs.Emission.Claims

namespace Xdr

open Code

variable {t : Table} {es : List Demand}

/-! ## Names of types -/

/-- the names of the types that the schema defines at its top level -/
def Table.typeIds (t : Table) : List String := (t.definitions.toList.filter Definition.isType).map Definition.id

/-- the names of the types that are generated -/
def Emission.typeNames (s : Emission) : List String := (s.fragments.toList.filter Fragment.isType).map Fragment.name

/-- what goes by a claimed name is a type -/
theorem Generates.isType_of_claimed {ns ns' : Std.HashSet String} {new : List Product}
    (h : Generates t es ns ns' new) : ∀ p ∈ new, p.claimed = true → p.fragment.isType = true := by
  induction h with
  | nil => exact nofun
  | append _ _ ih ih' =>
    rw [List.forall_mem_append]
    exact ⟨ih, ih'⟩
  | @inline name b f ns ns' new _ hbody hcode _ ih =>
    rw [List.forall_mem_append, List.forall_mem_singleton]
    refine ⟨ih, fun _ => ?_⟩
    cases b <;> cases hbody <;> cases hcode <;> rfl
  | container => simp [Container.code, Fragment.isType]
  | taken | shared => exact nofun
  | declared d ns =>
    intro p hp hclaimed
    obtain ⟨f, -, rfl⟩ := Option.map_eq_some_iff.1 (Option.mem_toList.1 hp)
    cases hclaimed

/-- the unclaimed products of a schema are its definitions -/
theorem filterMap_product?_declared {ds : List Definition} (hds : ∀ d ∈ ds, d.grammaticalBody = true) :
    ((ds.flatMap fun d => d.demandsAs t d.id ++ [.declared d]).filterMap (Demand.product? t)).filter
      (fun p => !p.claimed) = ds.filterMap fun d => Demand.product? t (.declared d) := by
  induction ds with
  | nil => rfl
  | cons d ds ih =>
    rw [List.forall_mem_cons] at hds
    have hinner : ((d.demandsAs t d.id).filterMap (Demand.product? t)).filter (fun p => !p.claimed) = [] := by
      rw [List.filter_eq_nil_iff]
      intro p hp
      obtain ⟨e, he, hpe⟩ := List.mem_filterMap.1 hp
      simp [claimed_of_inner (inner_of_mem_demandsAs t d.id hds.1 e he) hpe]
    have hown : ([Demand.declared d].filterMap (Demand.product? t)).filter (fun p => !p.claimed) =
        (Demand.product? t (.declared d)).toList := by
      cases h : d.codeAs t d.id <;> simp [Demand.product?, h]
    rw [List.flatMap_cons, List.filterMap_append, List.filter_append, ih hds.2, List.filterMap_append,
      List.filter_append, hinner, hown]
    cases h : Demand.product? t (.declared d) <;> simp [h]

/-- definitions of types are generated under their own names -/
theorem map_name_declared (t : Table) (ds : List Definition) :
    ((ds.filterMap fun d => Demand.product? t (.declared d)).filter fun p => p.fragment.isType).map Product.name =
      (ds.filter Definition.isType).map Definition.id := by
  induction ds with
  | nil => rfl
  | cons d ds ih =>
    cases d with
    | const | program => exact ih
    | typedef | struct | enum | union => exact congrArg (List.cons _) ih

/-- the types that are generated: those of the schema, and one for each claimed name -/
theorem typeNames_perm (hd : ∀ d ∈ t.definitions, d.grammatical = true) : ∃ claimed : List String,
    claimed.Nodup ∧ (∀ x, x ∈ t.emission.names ↔ x ∈ claimed) ∧ (∀ x ∈ claimed, x ∈ madeNames t t.demands) ∧
      t.emission.typeNames.Perm (claimed ++ t.typeIds) := by
  obtain ⟨new, hfragments, hg⟩ := emission_answers hd
  refine ⟨claimedNames new, hg.nodup, fun x => ?_, fun x => hg.mem_madeNames, ?_⟩
  · rw [hg.mem_names]
    simp
  let ofType : Product → Bool := fun p => p.fragment.isType
  have hclaimed : (new.filter ofType).filter Product.claimed = new.filter Product.claimed := by
    rw [List.filter_comm, List.filter_eq_self]
    intro p hp
    exact hg.isType_of_claimed p (List.mem_filter.1 hp).1 (List.mem_filter.1 hp).2
  have hdeclared : ((new.filter ofType).filter fun p => !p.claimed).map Product.name = t.typeIds := by
    rw [List.filter_comm, hg.declared_eq, Table.demands, filterMap_product?_declared, map_name_declared]
    · rfl
    · exact fun d hmem => (Bool.and_eq_true_iff.1 (hd d (Array.mem_toList_iff.1 hmem))).2
  have hnames : t.emission.typeNames = (new.filter ofType).map Product.name := by
    rw [Emission.typeNames, hfragments, List.nil_append, List.filter_map, List.map_map]
    rfl
  rw [hnames, ← hdeclared, claimedNames, ← hclaimed, ← List.map_append]
  exact ((List.filter_append_perm Product.claimed _).map Product.name).symm

/-- **Types have different names where no type of the schema has a claimed name.** What is generated for a reachable
table are the types of the schema and one type for each claimed name. Claimed names are marked, and each is made for an
inline type or a container. Two types have one name exactly when a type of the schema has a claimed name, so none have
where no type of the schema begins with an underscore. -/
theorem typeNames_nodup_iff {t : Table} (ht : t.Reachable) :
    (∃ claimed : List String, claimed.Nodup ∧ (∀ x, x ∈ t.emission.names ↔ x ∈ claimed) ∧
      t.emission.typeNames.Perm (claimed ++ t.typeIds)) ∧
    (∀ x ∈ t.emission.names, x ∈ madeNames t t.demands ∧ x.startsWith "_" = true) ∧
    (t.emission.typeNames.Nodup ↔ ∀ d ∈ t.definitions, d.isType = true → d.id ∉ t.emission.names) ∧
    ((∀ d ∈ t.definitions, d.isType = true → d.id.startsWith "_" = false) → t.emission.typeNames.Nodup) := by
  have hd := ht.sound.grammatical
  obtain ⟨claimed, hnodup, hmem, hmade, hperm⟩ := typeNames_perm hd
  have hmarked : ∀ x ∈ t.emission.names, x ∈ madeNames t t.demands ∧ x.startsWith "_" = true := by
    intro x hx
    have hx := hmade x ((hmem x).1 hx)
    exact ⟨hx, startsWith_of_mem_madeNames hd hx⟩
  have htypes : t.typeIds.Nodup := ht.ids_nodup.sublist (List.filter_sublist.map _)
  have hiff : t.emission.typeNames.Nodup ↔ ∀ d ∈ t.definitions, d.isType = true → d.id ∉ t.emission.names := by
    rw [hperm.nodup_iff, List.nodup_append']
    constructor
    · rintro ⟨-, -, hdisjoint⟩ d hmemd htype hname
      refine hdisjoint ((hmem d.id).1 hname) (List.mem_map_of_mem (List.mem_filter.2 ⟨?_, htype⟩))
      exact Array.mem_toList_iff.2 hmemd
    · intro hfree
      refine ⟨hnodup, htypes, fun x hx hid => ?_⟩
      obtain ⟨d, hdef, rfl⟩ := List.mem_map.1 hid
      obtain ⟨hdef, htype⟩ := List.mem_filter.1 hdef
      exact hfree d (Array.mem_toList_iff.1 hdef) htype ((hmem d.id).2 hx)
  refine ⟨⟨claimed, hnodup, hmem, hperm⟩, hmarked, hiff, fun hplain => hiff.2 fun d hmemd htype hname => ?_⟩
  exact absurd ((hmarked d.id hname).2.symm.trans (hplain d hmemd htype)) (by decide)

theorem typeNames_nodup_iff_sample : (Table.empty.extend nestedStruct).Reachable ∧
    (Table.empty.extend nestedStruct).emission.typeNames.Nodup :=
  ⟨nestedStruct_reachable, (typeNames_nodup_iff nestedStruct_reachable).2.2.2 (by
    simp [Table.extend, Table.empty, nestedStruct, Definition.id])⟩

/-- a definition, and another one with an inline type of its name -/
def doubled : List Definition :=
  [.struct "_S_a" [⟨"x", "int", .scalar, "", none⟩],
    .struct "S" [⟨"a", "", .scalar, "", some (.struct "" [⟨"y", "hyper", .scalar, "", none⟩])⟩]]

/-- **A schema is accepted, and two types of one name are generated for it.** -/
theorem doubled_accepted : Table.empty.addSource (schemaText doubled) = (Table.ofDefinitions doubled, .ok 2) ∧
    (Table.ofDefinitions doubled).emission.fragments.toList =
      [.struct "_S_a" [⟨"x", .named "int"⟩], .struct "_S_a" [⟨"y", .named "hyper"⟩],
        .struct "S" [⟨"a", .named "_S_a"⟩]] ∧
    ¬ (Table.ofDefinitions doubled).emission.typeNames.Nodup := by
  have hname : memberTypeName "S" "a" = "_S_a" := (memberTypeName_eq _ _).trans (by decide)
  have hrun : ∀ t : Table, (((doubled.forM fun d => d.emit t) : StateM Emission Unit) {}).2.fragments.toList =
      [.struct "_S_a" [⟨"x", .named "int"⟩], .struct "_S_a" [⟨"y", .named "hyper"⟩],
        .struct "S" [⟨"a", .named "_S_a"⟩]] := by
    simp [doubled, Definition.emit, Definition.emitAs, emitFields, Decl.typeAs, Definition.id, run_bind, run_map,
      run_claim, run_push, hname, Table.typeOf, Table.isBounded, Primitive.idlName, Table.container]
  have hfragments := hrun (Table.ofDefinitions doubled)
  refine ⟨Table.addSource_schemaText_of_nodup (by decide) ?_ ?_ (by decide), hfragments, ?_⟩
  · exact List.forall_mem_cons.2 ⟨rfl, List.forall_mem_singleton.2 rfl⟩
  · exact List.forall_mem_cons.2 ⟨rfl, List.forall_mem_singleton.2 rfl⟩
  · change ¬ (((((doubled.forM fun d => d.emit _) : StateM Emission Unit) {}).2.fragments.toList.filter
      Fragment.isType).map Fragment.name).Nodup
    rw [hfragments]
    decide

end Xdr
