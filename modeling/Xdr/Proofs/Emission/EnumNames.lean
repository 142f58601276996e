/-
Names of enums that are declared inline, in the table and in what is generated.

The table records the enum of each tag while definitions are added; the generation makes the names of inline types on
its own way through a definition. `NamesInside` is that way: from a name to the names of the types declared inside.
- `NamesInside.mem_tagsAs`: the tags of an enum are brought under every name that the way gives it.
- `namesInside_of_asks`, `asked_or_blocked`: generations follow the way, as far as names are free.
- `enums_named_alike`: the enums of reachable tables, with those that a discriminant is found to be.
-/
import Xdr.Proofs.Emission.Order
import Xdr.Proofs.Schema.Rules
import Xdr.Proofs.Table.Acceptance
import Xdr.Proofs.Table.Chase

namespace Xdr

open Code

/-! ## Names on the way -/

/-- generated under `name`, the definition `d` gives the name `x` to `e`: to itself, or to the body of a type that is
declared in it at some depth -/
inductive Definition.NamesInside : Definition → String → Definition → String → Prop
  | self (d : Definition) (name : String) : d.NamesInside name d name
  | body {d b e : Definition} {name x : String} {m : Decl} (hm : m ∈ d.values) (hb : m.body = some b)
    (h : b.NamesInside (d.innerName name m.id) e x) : d.NamesInside name e x

variable {d e : Definition} {name x tag : String}

/-- whatever is inside of a definition gets a name -/
theorem exists_namesInside (h : e.Within d) (hd : d.grammaticalBody = true) (name : String) :
    ∃ x, d.NamesInside name e x := by
  induction h generalizing name with
  | self => exact ⟨name, .self _ name⟩
  | @body b d m _ hm hb ih =>
    have hbody := Decl.grammaticalBody_of_body (Definition.grammatical_of_mem_decls hd hm hb) hb
    obtain ⟨x, hx⟩ := ih hbody (d.innerName name m.id)
    exact ⟨x, .body (Definition.mem_values_of_mem_decls hd hm hb) hb hx⟩

/-- tags are collected under the names that the generation makes -/
theorem Definition.tagsAs_subset_of_mem_decls {b : Definition} {m : Decl} (hm : m ∈ d.decls) (hb : m.body = some b)
    (name : String) : b.tagsAs (d.innerName name m.id) ⊆ d.tagsAs name := by
  have htags : ∀ inner, b.tagsAs inner = m.tagsAs inner := fun inner => by rw [declTagsAs_eq, hb, Option.elim_some]
  rw [htags]
  cases d with
  | const | program | enum => cases hm
  | typedef e =>
    obtain rfl := List.mem_singleton.1 hm
    exact List.Subset.refl _
  | struct id fields =>
    rw [tagsAs, fieldTags_eq]
    exact fun p hp => List.mem_flatMap.2 ⟨m, hm, hp⟩
  | union id tagId tagType arms hasDefault =>
    rw [tagsAs, armTags_eq]
    exact fun p hp => List.mem_flatMap.2 ⟨m, hm, hp⟩

/-- **An enum brings its tags under the name that it is given.** -/
theorem Definition.NamesInside.mem_tagsAs (h : d.NamesInside name e x) (htag : tag ∈ e.ownTags) :
    (tag, x) ∈ d.tagsAs name := by
  induction h with
  | self d name =>
    cases d with
    | enum id tags =>
      obtain ⟨g, hg, rfl⟩ := List.mem_map.1 htag
      exact List.mem_map.2 ⟨g, hg, rfl⟩
    | const | typedef | struct | union | program => cases htag
  | @body d b e name x m hm hb _ ih =>
    exact Definition.tagsAs_subset_of_mem_decls (Definition.mem_decls_of_mem_values hm) hb name (ih htag)

/-! ## Generations on the way -/

variable {t : Table} {g g' : Generation}

/-- the next type on the way to `e` has its name claimed when the name is asked for -/
def Generation.Blocked (t : Table) (g : Generation) (e : Definition) (x : String) : Prop :=
  ∃ (k : Nat) (m : Decl) (b : Definition), g.definition.values[k]? = some m ∧ m.body = some b ∧
    b.NamesInside (g.definition.innerName g.name m.id) e x ∧
    g.definition.innerName g.name m.id ∈ (g.upTo t k).names

/-- generations go by the names on the way -/
theorem namesInside_of_asks (h : Relation.ReflTransGen (Generation.Asks t) g g') :
    g.definition.NamesInside g.name g'.definition g'.name := by
  induction h using Relation.ReflTransGen.head_induction_on with
  | refl => exact .self _ _
  | head hasks _ ih =>
    obtain ⟨k, m, hm, hg⟩ := hasks
    obtain ⟨b, hb, rfl⟩ := eq_of_generation? hg
    exact .body (List.mem_of_getElem? hm) hb ih

/-- the way is gone to its end, unless a name on it is claimed -/
theorem asked_or_blocked (g : Generation) (h : g.definition.NamesInside g.name e x) :
    (∃ g', Relation.ReflTransGen (Generation.Asks t) g g' ∧ g'.definition = e ∧ g'.name = x) ∨
      ∃ g', Relation.ReflTransGen (Generation.Asks t) g g' ∧ g'.Blocked t e x := by
  generalize hd : g.definition = d at h
  generalize hname : g.name = name at h
  induction h generalizing g with
  | self => exact .inl ⟨g, .refl, hd, hname⟩
  | @body d b e name x m hm hb h ih =>
    subst hd hname
    obtain ⟨k, hk⟩ := List.getElem?_of_mem hm
    by_cases hclaimed : g.definition.innerName g.name m.id ∈ (g.upTo t k).names
    · exact .inr ⟨g, .refl, k, m, b, hk, hb, h, hclaimed⟩
    · let inner : Generation := ⟨b, g.definition.innerName g.name m.id,
        (Emission.claim (g.definition.innerName g.name m.id) (g.upTo t k)).2⟩
      have hasks : g.Asks t inner := ⟨k, m, hk, by rw [Decl.generation?, hb, Option.bind_some, if_neg hclaimed]⟩
      refine (ih inner rfl rfl).imp ?_ ?_
      · rintro ⟨g', hsteps, hg'⟩
        exact ⟨g', .head hasks hsteps, hg'⟩
      · rintro ⟨g', hsteps, hg'⟩
        exact ⟨g', .head hasks hsteps, hg'⟩

theorem eq_of_codeAs_enum {members : List EnumMember} (h : d.codeAs t name = some (.enum x members)) :
    name = x ∧ members.map EnumMember.name = d.ownTags := by
  cases d with
  | enum id tags =>
    cases h
    exact ⟨rfl, by simp [Definition.ownTags]⟩
  | const | typedef | struct | union | program => cases h

/-! ## Tables -/

namespace Table

/-- `y` is the type that the typedef `x` names, however qualified; nothing is declared inline -/
def Renames (t : Table) : String → String → Prop := Follows fun x => (t.get? x).bind Definition.target?

/-- the table and the generation call enums by the same names -/
structure NamesEnumsAlike (t : Table) : Prop where
  /-- an enum that is generated has the name that is recorded for each of its tags -/
  generated : ∀ name members, .enum name members ∈ t.emission.fragments → ∀ m ∈ members, t.enumOf? m.name = some name
  /-- every enum, at any depth, is given a name from the definition around it, the one recorded for its tags -/
  recorded : ∀ d ∈ t.definitions, ∀ e : Definition, e.Within d → (∃ x, d.NamesInside d.id e x) ∧
    ∀ x, d.NamesInside d.id e x → ∀ tag ∈ e.ownTags, t.enumOf? tag = some x
  /-- these are the names that types go by when the definition is generated -/
  followed : ∀ g ∈ t.generations, g.name = g.definition.id ∧
    (∀ g', Relation.ReflTransGen (Generation.Asks t) g g' →
      g.definition.NamesInside g.name g'.definition g'.name) ∧
    ∀ e x, g.definition.NamesInside g.name e x →
      (∃ g', Relation.ReflTransGen (Generation.Asks t) g g' ∧ g'.definition = e ∧ g'.name = x) ∨
        ∃ g', Relation.ReflTransGen (Generation.Asks t) g g' ∧ g'.Blocked t e x
  /-- an enum under a typedef is found behind every chain of typedefs -/
  typedefs : ∀ m id tags, .typedef m ∈ t.definitions → m.body = some (.enum id tags) →
    ∀ x, Relation.ReflTransGen t.Renames x m.id →
      t.enumType? x = some (underscored m.id) ∧ ∀ g ∈ tags, t.enumOf? g.id = t.enumType? x

end Table

section

variable (ht : t.Reachable)

include ht

/-- the table records the name that an enum is given when the definition around it is generated -/
theorem enumOf?_of_namesInside (hd : d ∈ t.definitions) (h : d.NamesInside d.id e x) (htag : tag ∈ e.ownTags) :
    t.enumOf? tag = some x :=
  (ht.tagged.keys tag x).2 (List.mem_flatMap.2 ⟨d, Array.mem_toList_iff.2 hd, h.mem_tagsAs htag⟩)

/-- behind a chain of typedefs the enum under the last one is found -/
theorem enumType?_of_renames {m : Decl} {id : String} {tags : List EnumTag} (hd : .typedef m ∈ t.definitions)
    (hb : m.body = some (.enum id tags)) (h : Relation.ReflTransGen t.Renames x m.id) :
    t.enumType? x = some (underscored m.id) := by
  have hget : t.get? m.id = some (.typedef m) := ht.indexed.get?_eq_some_iff.2 ⟨hd, rfl⟩
  obtain ⟨name, type, q, bound, body⟩ := m
  obtain rfl : body = some (.enum id tags) := hb
  have hend : (t.get? name).bind Definition.target? = none := by
    rw [hget]
    rfl
  have hchase : t.chase Definition.target? x = name := ht.indexed.chase_eq_end h hend
  rw [Table.enumType?, hchase, hget]

end

/-- **Enums are called by the same names in the table and in what is generated.** In a reachable table, the tags of
each enum, at any depth, are recorded with the name that the enum is given from the definition around it, down through
typedefs, fields and arms; types are generated under these names as long as none is claimed; and what a discriminant of
a typedef is found to be, behind any chain of typedefs, is the name recorded for the enum under the typedef. -/
theorem enums_named_alike {t : Table} (ht : t.Reachable) : t.NamesEnumsAlike := by
  refine ⟨fun name members hf m hm => ?_, fun d hd e he => ⟨?_, fun x hx tag htag => ?_⟩,
    fun g hg => ⟨name_of_mem_generationsFrom hg, fun g' h => namesInside_of_asks h, fun e x h => asked_or_blocked g h⟩,
    fun m id tags hd hb x h => ?_⟩
  · rcases exists_makes hf with hcontainer | ⟨g, hg, g', hsteps, hown⟩
    · cases hcontainer
    · obtain ⟨rfl, hnames⟩ := eq_of_codeAs_enum hown
      have hinside := namesInside_of_asks hsteps
      rw [name_of_mem_generationsFrom hg] at hinside
      refine enumOf?_of_namesInside ht (mem_definitions_of_mem_generations hg) hinside ?_
      rw [← hnames]
      exact List.mem_map_of_mem hm
  · exact exists_namesInside he (Bool.and_eq_true_iff.1 (ht.sound.grammatical d hd)).2 d.id
  · exact enumOf?_of_namesInside ht hd hx htag
  · have hfound := enumType?_of_renames ht hd hb h
    refine ⟨hfound, fun g hg => ?_⟩
    rw [hfound]
    refine enumOf?_of_namesInside ht hd (.body (List.mem_singleton_self m) hb (.self _ _)) ?_
    exact List.mem_map_of_mem hg

/-- an enum with two values -/
def colorDecl : Decl := ⟨"color", "", .scalar, "", some (.enum "" [⟨"RED", "0"⟩, ⟨"GREEN", "1"⟩])⟩

/-- an enum in an arm in a field -/
def modeDecl : Decl :=
  ⟨"mode", "", .scalar, "", some (.union "" "kind" "int"
    [⟨["0"], false, ⟨"state", "", .scalar, "", some (.enum "" [⟨"ON", "1"⟩])⟩⟩, ⟨[], true, .void⟩] true)⟩

/-- both, and a typedef that leads to the first -/
def signalSchema : List Definition :=
  [.typedef colorDecl, .typedef { id := "palette", typeName := "color", qualifier := .vec, bound := "4" },
    .struct "signal" [modeDecl]]

theorem enums_named_alike_signal : ∃ t, Table.empty.addSource (schemaText signalSchema) = (t, .ok 3) ∧ t.Reachable ∧
    t.enumOf? "RED" = some "_color" ∧ t.enumType? "palette" = some "_color" ∧
    t.enumOf? "ON" = some "_signal_mode_state" := by
  have hg : ∀ d ∈ signalSchema, d.grammatical = true := by decide
  have haccepted : (Table.empty.insertAll signalSchema).2 = none := (insertAll_empty_iff hg).2 (by decide)
  obtain ⟨s, hscan, hparse⟩ := exists_scan_schemaText hg
  have hadd := Table.addSource_of_parse (t := .empty) (Table.bind_parse_of_scan hscan hparse)
  rw [haccepted] at hadd
  have hmem : ∀ d ∈ signalSchema, d ∈ (Table.empty.insertAll signalSchema).1.definitions := fun d hd => by
    rw [← Array.mem_toList_iff, Table.definitions_of_insertAll haccepted]
    exact List.mem_append_right _ hd
  generalize (Table.empty.insertAll signalSchema).1 = t at hadd hmem
  have ht := Table.reachable_of_addSource hadd
  have hcolor : .typedef colorDecl ∈ t.definitions := hmem _ List.mem_cons_self
  have hpalette : t.Renames "palette" "color" := by
    have hget := ht.indexed.get?_eq_some_iff.2 ⟨hmem _ (List.mem_cons_of_mem _ List.mem_cons_self), rfl⟩
    exact (congrArg (Option.bind · Definition.target?) hget).trans rfl
  have hsignal : .struct "signal" [modeDecl] ∈ t.definitions := hmem _ (by simp [signalSchema])
  have halike := enums_named_alike ht
  have hfield : modeDecl ∈ (Definition.struct "signal" [modeDecl]).values := List.mem_singleton_self modeDecl
  have hmode : memberTypeName "signal" "mode" = "_signal_mode" := (memberTypeName_eq _ _).trans (by decide)
  have hstate : memberTypeName "_signal_mode" "state" = "_signal_mode_state" :=
    (memberTypeName_eq _ _).trans (by decide)
  have hinside : (Definition.struct "signal" [modeDecl]).NamesInside "signal" (.enum "" [⟨"ON", "1"⟩])
      "_signal_mode_state" := by
    rw [← hstate, ← hmode]
    exact .body hfield rfl (.body List.mem_cons_self rfl (.self _ _))
  have hwithin : (Definition.enum "" [⟨"ON", "1"⟩]).Within (.struct "signal" [modeDecl]) :=
    .body (.body (.self _) List.mem_cons_self rfl) hfield rfl
  obtain ⟨hfound, htags⟩ := halike.typedefs colorDecl "" _ hcolor rfl "palette" (.single hpalette)
  have hunder : underscored colorDecl.id = "_color" := (underscored_of_plain (by decide)).trans (by decide)
  rw [hunder] at hfound
  refine ⟨t, hadd, ht, (htags ⟨"RED", "0"⟩ List.mem_cons_self).trans hfound, hfound, ?_⟩
  exact (halike.recorded _ hsignal _ hwithin).2 _ hinside "ON" List.mem_cons_self

end Xdr
