/-
What is generated for the schemas for measurements.

Each group asks for two containers whose bound is the constant of the group: as long as the constants are less than the
bound that stands for none, a group is generated as its five definitions and these two, under names of their own.
- `bound_max`: the constant of a group as a bound.
- `demands_group`, `code_group`: what a group asks for, and what is generated for it.
- `groups_at_every_size`: how a schema of any size is read, accepted and generated.
-/
import Xdr.Proofs.Emission.Bounds
import Xdr.Proofs.Emission.TagNumbers
import Xdr.Proofs.Synthetic.Reading
import Xdr.Proofs.Table.Failures

namespace Xdr.Synthetic

open Code

/-! ## The code of a group -/

/-- `_string_16`, `_string_17` and so on -/
def stringWrappers : Series := { before := "_string_", first := 16 }

def intWrappers : Series := { before := "_int_", first := 16 }

def itemMembers (i : Nat) : List Member :=
  [⟨"name", .named (stringNames.name i)⟩, ⟨"id", .named "unsigned hyper"⟩, ⟨"digest", .array "opaque" (.count 32)⟩,
    ⟨"values", .wrapper (intWrappers.name i)⟩] ++
  if i > 0 then [⟨"prev", .optional (itemNames.name (i - 1))⟩] else []

def bodyCode (i : Nat) : List UnionArm :=
  [⟨[.name (tagANames.name i)], false, some ⟨"item", .named (itemNames.name i)⟩⟩,
    ⟨[.name (tagBNames.name i), .name (tagCNames.name i)], false, some ⟨"weight", .named "double"⟩⟩, ⟨[], true, none⟩]

/-- the definitions of a group, each container before the definition that asks for it -/
def groupCode (i : Nat) : List Fragment :=
  [.const (maxNames.name i) (.integer (.ofValue (16 + i : Nat))) (.literal (toString (16 + i))),
    .wrapper (stringWrappers.name i) (.named "string") (toString (16 + i)) true,
    .alias (stringNames.name i) (.wrapper (stringWrappers.name i)),
    .enum (kindNames.name i) [⟨tagANames.name i, .number 0⟩, ⟨tagBNames.name i, .number 1⟩,
      ⟨tagCNames.name i, .number 2⟩],
    .wrapper (intWrappers.name i) (.vec "int") (toString (16 + i)) false,
    .struct (itemNames.name i) (itemMembers i),
    .union ⟨bodyNames.name i, "kind", kindNames.name i, bodyCode i, true⟩]

/-! ## The table of a schema -/

section

variable {t : Table} {n i : Nat} (ht : t.Reachable)

section

variable (hdefs : t.definitions.toList = definitions n) (hi : i < n)

include hdefs hi

theorem mem_definitions {d : Definition} (hd : d ∈ groupDefinitions i) : d ∈ t.definitions := by
  rw [← Array.mem_toList_iff, hdefs]
  exact List.mem_flatMap.2 ⟨i, List.mem_range.2 hi, hd⟩

theorem kindEnum_mem_definitions : kindEnum i ∈ t.definitions :=
  mem_definitions hdefs hi (by simp [groupDefinitions])

include ht

theorem integer?_max (hsmall : 16 + i ≤ Integer.maxMagnitude) :
    t.integer? (maxNames.name i) = some ((16 + i : Nat) : Int) := by
  have hconst : maxConst i ∈ t.definitions := mem_definitions hdefs hi List.mem_cons_self
  rw [integer?_of_const ht hconst (isName_toString _), Integer.read?_toString hsmall]

/-- a constant that is less than the bound for none is a bound -/
theorem bound_max (hsmall : 16 + i < 0xFFFFFFFF) : t.bound (maxNames.name i) = .limit (16 + i) := by
  have hmax : 16 + i ≤ Integer.maxMagnitude := Nat.le_trans (Nat.le_of_lt hsmall) (by decide)
  exact Table.bound_of_lt (integer?_max ht hdefs hi hmax) (by unfold unlimited; omega)

theorem enumOf?_tag {tag : String} (htag : tag ∈ (kindTags i).map EnumTag.id) :
    t.enumOf? tag = some (kindNames.name i) := by
  rw [ht.tagged.keys, Table.tagList, List.mem_flatMap]
  refine ⟨_, Array.mem_toList_iff.2 (kindEnum_mem_definitions hdefs hi), ?_⟩
  simpa [kindEnum, Definition.tags, Definition.tagsAs, Definition.id] using htag

/-- a tag stands for itself -/
theorem pattern_tag {tag : String} (htag : tag ∈ (kindTags i).map EnumTag.id) (enum : Option String) :
    t.pattern enum tag = .name tag := by
  have henum := enumOf?_tag ht hdefs hi htag
  have hget := get?_of_tag ht henum
  refine pattern_eq_name_iff.2 ⟨rfl, ?_⟩
  rw [integer?_of_not_const (by simp [hget]), read?_of_isName (ht.isName_of_enumOf? henum)]

end

/-! ## What a group asks for -/

def stringContainer (i : Nat) : Container := ⟨.scalar, "string", toString (16 + i)⟩

def intContainer (i : Nat) : Container := ⟨.vec, "int", toString (16 + i)⟩

/-- everything that a group asks for -/
def groupDemands (i : Nat) : List Demand :=
  [.declared (maxConst i), .container (stringContainer i), .declared (stringType i), .declared (kindEnum i),
    .container (intContainer i), .declared (itemStruct i), .declared (bodyUnion i)]

include ht

theorem name_stringContainer (i : Nat) : (stringContainer i).name t = stringWrappers.name i := by
  rw [stringContainer, name_container ht (by decide) (by decide) (by decide), stringWrappers.name_of_bare rfl]
  rfl

theorem name_intContainer (i : Nat) : (intContainer i).name t = intWrappers.name i := by
  rw [intContainer, name_container ht (by decide) (by decide) (by decide), intWrappers.name_of_bare rfl]
  rfl

omit ht

theorem name_ne_void (s : Series) (j : Nat) : s.name j ≠ "void" := ne_of_isName (s.isName_name j) (by decide)

/-- one value of a type that is no built-in one asks for no container -/
theorem container?_name (t : Table) (s : Series) (j : Nat) (bound : String) :
    t.container? .scalar (s.name j) bound = none := by
  have hstring : s.name j ≠ "string" := ne_of_isName (s.isName_name j) (by decide)
  exact if_neg (by simpa [Table.isBounded, Primitive.idlName] using hstring)

theorem demands_prevField (t : Table) (parent : String) (i : Nat) :
    (prevField i).flatMap (fun m => m.demandsAs t (memberTypeName parent m.id)) = [] := by
  refine List.flatMap_eq_nil_iff.2 fun m hm => ?_
  rw [mem_prevField hm]
  rfl

theorem demands_bodyArms (t : Table) (parent : String) (i : Nat) : armDemands t parent (bodyArms i) = [] := by
  have hdouble : t.container? .scalar "double" "" = none := rfl
  simp [bodyArms, armDemands, Decl.demandsAs, Decl.isVoid, Decl.void, Primitive.idlName, container?_name, hdouble]

theorem code_bodyArms (ht : t.Reachable) (hdefs : t.definitions.toList = definitions n) (hi : i < n) (parent : String)
    (enum : Option String) : (bodyArms i).map (Arm.code t parent enum) = bodyCode i := by
  have hpattern : ∀ s ∈ [tagANames, tagBNames, tagCNames], t.pattern enum (s.name i) = .name (s.name i) := by
    intro s hs
    exact pattern_tag ht hdefs hi (List.mem_map_of_mem (f := fun s => s.name i) hs) enum
  simp only [List.forall_mem_cons] at hpattern
  have hdouble : t.container? .scalar "double" "" = none := rfl
  simp [bodyArms, bodyCode, Arm.code, Decl.member, Decl.typeExpr, Table.typeExpr, Table.container, Decl.baseName,
    Decl.isVoid, Decl.void, Primitive.idlName, container?_name, name_ne_void, hdouble, hpattern]

section

variable (hbound : t.bound (maxNames.name i) = .limit (16 + i))

include hbound

theorem container?_of_isBounded {q : Qualifier} {base : String} (h : Table.isBounded q base = true) :
    t.container? q base (maxNames.name i) = some ⟨q, base, toString (16 + i)⟩ := by
  rw [Table.container?, if_pos h, hbound]
  rfl

theorem container?_string : t.container? .scalar "string" (maxNames.name i) = some (stringContainer i) :=
  container?_of_isBounded hbound rfl

theorem container?_int : t.container? .vec "int" (maxNames.name i) = some (intContainer i) :=
  container?_of_isBounded hbound rfl

theorem demands_itemFields (parent : String) :
    fieldDemands t parent (itemFields i) = [.container (intContainer i)] := by
  have hid : t.container? .scalar "unsigned hyper" "" = none := rfl
  have hdigest : t.container? .array "opaque" "32" = none := rfl
  rw [fieldDemands_eq, itemFields, List.flatMap_append, demands_prevField]
  simp [Decl.demandsAs, container?_name, container?_int hbound, hid, hdigest]

theorem code_itemFields (ht : t.Reachable) (parent : String) :
    (itemFields i).map (Decl.member t parent) = itemMembers i := by
  have hlength : t.length "32" = .count 32 := by
    have hread : t.integer? "32" = some 32 := by
      rw [integer?_of_isNumber ht (by decide)]
      decide
    rw [Table.length, hread]
  have hprev : (prevField i).map (Decl.member t parent) =
      if i > 0 then [⟨"prev", .optional (itemNames.name (i - 1))⟩] else [] := by
    unfold prevField
    split_ifs <;> rfl
  have hid : t.container? .scalar "unsigned hyper" "" = none := rfl
  have hdigest : t.container? .array "opaque" "32" = none := rfl
  rw [itemFields, List.map_append, hprev, itemMembers]
  simp [Decl.member, Decl.typeExpr, Table.typeExpr, Table.container, Decl.baseName, container?_name,
    container?_int hbound, name_intContainer ht, hid, hdigest, hlength]

/-- only the string and the vector ask for containers -/
theorem demands_group : ((groupDefinitions i).flatMap fun d => d.demandsAs t d.id ++ [.declared d]) =
    groupDemands i := by
  have hstring : (stringType i).demandsAs t (stringType i).id = [.container (stringContainer i)] := by
    simp [stringType, Definition.demandsAs, Decl.demandsAs, container?_string hbound]
  have hitem : (itemStruct i).demandsAs t (itemStruct i).id = [.container (intContainer i)] :=
    demands_itemFields hbound (itemStruct i).id
  have hbody : (bodyUnion i).demandsAs t (bodyUnion i).id = [] := demands_bodyArms t (bodyUnion i).id i
  have hnone : (maxConst i).demandsAs t (maxConst i).id = [] ∧ (kindEnum i).demandsAs t (kindEnum i).id = [] :=
    ⟨rfl, rfl⟩
  simp [groupDefinitions, groupDemands, hstring, hitem, hbody, hnone]

theorem codeAs_stringType (ht : t.Reachable) : (stringType i).codeAs t (stringType i).id =
    some (.alias (stringNames.name i) (.wrapper (stringWrappers.name i))) := by
  simp [stringType, Definition.codeAs, Definition.id, Decl.typeExpr, Table.typeExpr, Decl.baseName,
    container?_string hbound, name_stringContainer ht]

end

theorem codeAs_maxConst (ht : t.Reachable) (hsmall : 16 + i ≤ Integer.maxMagnitude) :
    (maxConst i).codeAs t (maxConst i).id =
      some (.const (maxNames.name i) (.integer (.ofValue (16 + i : Nat))) (.literal (toString (16 + i)))) := by
  have hread := Integer.read?_toString hsmall
  have hinteger := (integer?_of_isNumber ht (isNumber_toString (16 + i))).trans hread
  have htype : t.constType (toString (16 + i)) = .integer (.ofValue (16 + i : Nat)) := by
    rw [Table.constType, hinteger]
  have hvalue : Table.constValue (toString (16 + i)) = .literal (toString (16 + i)) := by
    rw [Table.constValue, hread]
    rfl
  rw [← htype, ← hvalue]
  rfl

theorem codeAs_kindEnum (ht : t.Reachable) (i : Nat) : (kindEnum i).codeAs t (kindEnum i).id =
    some (.enum (kindNames.name i) [⟨tagANames.name i, .number 0⟩, ⟨tagBNames.name i, .number 1⟩,
      ⟨tagCNames.name i, .number 2⟩]) := by
  have hnumber : ∀ v ∈ [("0", (0 : Int)), ("1", 1), ("2", 2)], t.tagValue v.1 = .number v.2 := by
    intro v hv
    have hdigit : isNumber v.1 = true ∧ Integer.read? v.1 = some v.2 ∧ Table.wrap32 v.2 = v.2 := by
      revert v
      decide
    rw [Table.tagValue, integer?_of_isNumber ht hdigit.1, hdigit.2.1]
    exact congrArg TagValue.number hdigit.2.2
  simp only [List.forall_mem_cons] at hnumber
  simp [kindEnum, kindTags, Definition.codeAs, Definition.id, hnumber]

/-- **A group is generated as its definitions and the two containers.** -/
theorem code_group (ht : t.Reachable) (hdefs : t.definitions.toList = definitions n) (hi : i < n)
    (hsmall : 16 + i < 0xFFFFFFFF) :
    ((groupDemands i).filterMap (Demand.product? t)).map Product.fragment = groupCode i := by
  have hbound := bound_max ht hdefs hi hsmall
  have hmax := codeAs_maxConst ht (i := i) (Nat.le_trans (Nat.le_of_lt hsmall) (by decide))
  have hstring := codeAs_stringType hbound ht
  have hkind := codeAs_kindEnum ht i
  have hitem : (itemStruct i).codeAs t (itemStruct i).id = some (.struct (itemNames.name i) (itemMembers i)) := by
    rw [← code_itemFields hbound ht (itemNames.name i)]
    rfl
  have hbody : (bodyUnion i).codeAs t (bodyUnion i).id =
      some (.union ⟨bodyNames.name i, "kind", kindNames.name i, bodyCode i, true⟩) := by
    rw [← code_bodyArms ht hdefs hi (bodyNames.name i) (t.enumType? (kindNames.name i))]
    rfl
  have hstringCode : (stringContainer i).code t =
      .wrapper (stringWrappers.name i) (.named "string") (toString (16 + i)) true := by
    rw [← name_stringContainer ht i]
    rfl
  have hintCode : (intContainer i).code t =
      .wrapper (intWrappers.name i) (.vec "int") (toString (16 + i)) false := by
    rw [← name_intContainer ht i]
    rfl
  simp [groupDemands, groupCode, Demand.product?, hmax, hstring, hkind, hitem, hbody, hstringCode, hintCode]

/-! ## All groups -/

section

variable (ht : t.Reachable) (hdefs : t.definitions.toList = definitions n) (hn : n ≤ 2 ^ 32 - 17)

include ht hdefs hn

theorem demands_eq : t.demands = (List.range n).flatMap groupDemands := by
  rw [Table.demands, hdefs, definitions, List.flatMap_assoc]
  refine List.flatMap_congr fun i hi => demands_group (bound_max ht hdefs (List.mem_range.1 hi) ?_)
  have hi := List.mem_range.1 hi
  omega

/-- no two containers have one name -/
theorem nodup_madeNames : (madeNames t t.demands).Nodup := by
  have hinline : inlineNames t.demands = [] := by
    rw [demands_eq ht hdefs hn, inlineNames, List.filterMap_flatMap]
    exact List.flatMap_eq_nil_iff.2 fun i _ => rfl
  have hcontainers : (containers t.demands).map (Container.name t) =
      (List.range n).flatMap fun i => [stringWrappers, intWrappers].map fun s => s.name i := by
    rw [demands_eq ht hdefs hn, containers, List.filterMap_flatMap, List.map_flatMap]
    refine List.flatMap_congr fun i _ => ?_
    exact congrArg₂ (fun a b => [a, b]) (name_stringContainer ht i) (name_intContainer ht i)
  rw [madeNames, hinline, hcontainers]
  exact nodup_names (by decide) n

theorem fragments_eq : t.emission.fragments.toList = (List.range n).flatMap groupCode := by
  rw [fragments_of_nodup ht.sound.grammatical (nodup_madeNames ht hdefs hn), demands_eq ht hdefs hn,
    List.filterMap_flatMap, List.map_flatMap]
  refine List.flatMap_congr fun i hi => ?_
  have hi := List.mem_range.1 hi
  exact code_group ht hdefs hi (by omega)

end

end

/-! ## Every size -/

/-- the kinds and the names of what a group defines, as they are written -/
theorem kinds_group (i : Nat) : (groupDefinitions i).map (fun d => (d.kind, d.id)) =
    [("const", s!"MAX_{i}"), ("typedef", s!"Name{i}"), ("enum", s!"Kind{i}"), ("struct", s!"Item{i}"),
      ("union", s!"Body{i}")] := by
  have hkinds : (groupDefinitions i).map (fun d => (d.kind, d.id)) =
      [("const", maxNames.name i), ("typedef", stringNames.name i), ("enum", kindNames.name i),
        ("struct", itemNames.name i), ("union", bodyNames.name i)] := rfl
  have hname : ∀ s : Series, s.first = 0 → s.behind = "" → s.name i = s.before ++ toString i := by
    intro s hfirst hbehind
    rw [s.name_of_bare hbehind, hfirst, Nat.zero_add]
  rw [hkinds, hname maxNames rfl rfl, hname stringNames rfl rfl, hname kindNames rfl rfl, hname itemNames rfl rfl,
    hname bodyNames rfl rfl]
  rfl

theorem containerNames_group (i : Nat) :
    containerNames (groupCode i) = [s!"_string_{16 + i}", s!"_int_{16 + i}"] := by
  have hnames : containerNames (groupCode i) = [stringWrappers.name i, intWrappers.name i] := rfl
  rw [hnames, stringWrappers.name_of_bare rfl, intWrappers.name_of_bare rfl]
  rfl

/-- what is generated for the groups goes by different names -/
theorem nodup_names_code (n : Nat) : (((List.range n).flatMap groupCode).map Fragment.name).Nodup := by
  have hnames : ((List.range n).flatMap groupCode).map Fragment.name = (List.range n).flatMap fun i =>
      [maxNames, stringWrappers, stringNames, kindNames, intWrappers, itemNames, bodyNames].map fun s => s.name i := by
    rw [List.map_flatMap]
    rfl
  rw [hnames]
  exact nodup_names (by decide) n

/-- **Schemas for measurements are good at every size.** Read into the empty table, the schema of so many groups is
accepted, with five definitions for each group: a constant, a string type, an enum, a struct and a union, named for the
group, in the order of the groups. It is generated, whatever the options. As long as every constant is less than the
bound that stands for none, what is generated are seven fragments for each group, no two of one name: its definitions,
and two containers, one of strings and one of integers, named for the constant of the group. -/
theorem groups_at_every_size (n : Nat) : ∃ t : Table,
    Table.empty.addSource (schema n) = (t, .ok (5 * n)) ∧
    t.definitions.toList = (List.range n).flatMap groupDefinitions ∧
    t.definitions.toList.map (fun d => (d.kind, d.id)) = (List.range n).flatMap (fun i =>
      [("const", s!"MAX_{i}"), ("typedef", s!"Name{i}"), ("enum", s!"Kind{i}"), ("struct", s!"Item{i}"),
        ("union", s!"Body{i}")]) ∧
    generateSource (schema n) = t.generate {} ∧
    (∀ o : Options, (t.generate o).result = .ok (o.text t.emission.fragments.toList)) ∧
    (n ≤ 2 ^ 32 - 17 →
      t.emission.fragments.toList = (List.range n).flatMap groupCode ∧
      t.emission.fragments.size = 7 * n ∧
      (t.emission.fragments.toList.map Fragment.name).Nodup ∧
      containerNames t.emission.fragments.toList =
        (List.range n).flatMap fun i => [s!"_string_{16 + i}", s!"_int_{16 + i}"]) := by
  obtain ⟨t, hadd, ht, hdefs⟩ := exists_table n
  have hkinds : t.definitions.toList.map (fun d => (d.kind, d.id)) = (List.range n).flatMap (fun i =>
      [("const", s!"MAX_{i}"), ("typedef", s!"Name{i}"), ("enum", s!"Kind{i}"), ("struct", s!"Item{i}"),
        ("union", s!"Body{i}")]) := by
    rw [hdefs, definitions, List.map_flatMap]
    exact List.flatMap_congr fun i _ => kinds_group i
  have hgenerate : generateSource (schema n) = t.generate {} := by
    rw [generateSource, hadd]
  have hresult : ∀ o : Options, (t.generate o).result = .ok (o.text t.emission.fragments.toList) :=
    fun o => Table.generate_of_failures_eq_nil o (Table.failures_of_addSource hadd)
  refine ⟨t, hadd, hdefs, hkinds, hgenerate, hresult, fun hn => ?_⟩
  have hfragments := fragments_eq ht hdefs hn
  refine ⟨hfragments, ?_, hfragments ▸ nodup_names_code n, ?_⟩
  · rw [← Array.length_toList, hfragments]
    simp [List.length_flatMap, groupCode, Nat.mul_comm]
  · rw [hfragments, containerNames, List.filter_flatMap, List.map_flatMap]
    exact List.flatMap_congr fun i _ => containerNames_group i

/-- at the largest size, whose last constant is the greatest bound -/
theorem groups_at_every_size_largest : ∃ t : Table,
    Table.empty.addSource (schema 4294967279) = (t, .ok 21474836395) ∧ t.emission.fragments.size = 30064770953 := by
  obtain ⟨t, hadd, -, -, -, -, hgenerated⟩ := groups_at_every_size 4294967279
  exact ⟨t, hadd, (hgenerated (by decide)).2.1⟩

end Xdr.Synthetic
