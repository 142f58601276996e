/-
The unions and enums of the sample schema as they are generated.

The sample types are written down as values, each with the code of its union or the tags of its enum. What is generated
for the schema that they are taken from are the same.
- `products_eq`: the code of each of them.
- `sums_generated`: the unions and enums among all that is generated for a table of the schema.
- `samples_generated`: so it is for every text of the schema, and `samples_readable`: there is one.
-/
import Xdr.Proofs.Emission.Bounds
import Xdr.Proofs.Emission.Exclusive
import Xdr.Proofs.Table.Listed
import Xdr.Sample.Record

namespace Xdr

open Code

/-- an enum or a union -/
def Code.Fragment.isSum : Fragment → Bool
  | .enum .. | .union _ => true
  | _ => false

/-- the code of an enum all tags of which have numbers -/
def EnumType.code (e : EnumType) : Fragment := .enum e.name (e.tags.map fun g => ⟨g.2, .number g.1.toInt⟩)

namespace Sample

/-! ## The schema -/

def unionU : Definition :=
  .union "U" "t" "Tag" [
    ⟨["1"], false, ⟨"a", "A", .scalar, "", none⟩⟩, ⟨["2"], false, ⟨"b", "B", .scalar, "", none⟩⟩,
    ⟨[], true, ⟨"c", "C", .scalar, "", none⟩⟩] true

def unionStrict : Definition :=
  .union "Strict" "t" "int" [⟨["1", "2"], false, ⟨"small", "int", .scalar, "", none⟩⟩, ⟨["3"], false, .void⟩] false

def unionMaybe : Definition :=
  .union "Maybe" "present" "bool"
    [⟨["TRUE"], false, ⟨"color", "Color", .scalar, "", none⟩⟩, ⟨["FALSE"], false, .void⟩] false

def unionPaint : Definition :=
  .union "Paint" "color" "Color" [
    ⟨["RED"], false, ⟨"red_level", "unsigned int", .scalar, "", none⟩⟩,
    ⟨["GREEN"], false, ⟨"green_level", "double", .scalar, "", none⟩⟩] false

def unionExtra : Definition :=
  .union "" "kind" "Color" [⟨["RED"], false, ⟨"r", "int", .scalar, "", none⟩⟩, ⟨[], true, .void⟩] true

def structPosition : Definition :=
  .struct "" [⟨"x", "int", .scalar, "", none⟩, ⟨"y", "int", .scalar, "", none⟩]

def structRecord : Definition :=
  .struct "Record" [
    ⟨"name", "Name", .scalar, "", none⟩, ⟨"key", "Key", .scalar, "", none⟩, ⟨"blob", "Blob", .scalar, "", none⟩,
    ⟨"payload", "AnyBlob", .scalar, "", none⟩, ⟨"scores", "int", .vec, "3", none⟩,
    ⟨"big", "unsigned hyper", .scalar, "", none⟩, ⟨"ratio", "float", .scalar, "", none⟩,
    ⟨"active", "bool", .scalar, "", none⟩, ⟨"type", "int", .scalar, "", none⟩,
    ⟨"position", "", .scalar, "", some structPosition⟩, ⟨"extra", "", .scalar, "", some unionExtra⟩]

def enumColor : Definition := .enum "Color" [⟨"RED", "0"⟩, ⟨"GREEN", "1"⟩]

def enumSwitch : Definition := .enum "" [⟨"ON", "1"⟩, ⟨"OFF", "0"⟩]

def typedefSwitch : Definition := .typedef { id := "Switch", typeName := "", body := some enumSwitch }

def program : Program :=
  ⟨"FIXTURE_PROG", "0x20000001", [⟨"FIXTURE_VERS", "1",
    [⟨"FIXTURE_NULL", "0", "void", ["void"]⟩, ⟨"FIXTURE_GET", "1", "Record", ["Name"]⟩]⟩]⟩

/-- the definitions of the sample schema, in order -/
def definitions : List Definition :=
  [.const "MAX_NAME" "32", .const "LIMIT" "MAX_NAME", .const "UNBOUNDED_LEN" "0xffffffff", .const "KEY_LEN" "4",
    .typedef { id := "Name", typeName := "string", bound := "LIMIT" },
    .typedef { id := "Key", typeName := "opaque", qualifier := .array, bound := "KEY_LEN" },
    .typedef { id := "Blob", typeName := "opaque", qualifier := .vec, bound := "16" },
    .typedef { id := "AnyBlob", typeName := "opaque", qualifier := .vec, bound := "UNBOUNDED_LEN" },
    .typedef { id := "Tag", typeName := "int" }, enumColor,
    .struct "A" [⟨"a", "int", .scalar, "", none⟩], .struct "B" [⟨"b", "hyper", .scalar, "", none⟩],
    .struct "C" [⟨"c", "Name", .scalar, "", none⟩], unionU, unionStrict, unionMaybe, unionPaint,
    .struct "Node" [⟨"value", "int", .scalar, "", none⟩, ⟨"next", "Node", .optional, "", none⟩], structRecord,
    typedefSwitch, .const "DEFAULT_SWITCH" "ON", .program program]

/-- what a definition of the schema asks for before itself -/
def asked (d : Definition) : List Demand :=
  match d.id with
  | "Name" => [.container ⟨.scalar, "string", toString 32⟩]
  | "Blob" => [.container ⟨.vec, "opaque", toString 16⟩]
  | "Record" => [.container ⟨.vec, "int", toString 3⟩, .inline "_Record_position" structPosition,
      .inline "_Record_extra" unionExtra]
  | "Switch" => [.inline "_Switch" enumSwitch]
  | _ => []

/-- the unions and enums among what is generated for a definition -/
def sums (d : Definition) : List Fragment :=
  match d.id with
  | "Color" => [colorType.code]
  | "U" => [.union U.type.code]
  | "Strict" => [.union Strict.type.code]
  | "Maybe" => [.union Maybe.type.code]
  | "Paint" => [.union Paint.type.code]
  | "Record" => [.union Extra.type.code]
  | "Switch" => [switchType.code]
  | _ => []

theorem grammatical_definitions : ∀ d ∈ definitions, d.grammatical = true := by decide +kernel

theorem acceptable_definitions : Acceptable definitions := by decide +kernel

/-! ## Answers of its table -/

section

variable {t : Table} (ht : t.Reachable) (hds : t.definitions.toList = definitions)

include ht hds

theorem bound_eq : t.bound "LIMIT" = .limit 32 ∧ t.bound "16" = .limit 16 ∧ t.bound "UNBOUNDED_LEN" = .none ∧
    t.bound "3" = .limit 3 := by
  simp only [Table.bound, ht.integer?_eq_listed hds, ht.resolve_eq_listed hds]
  decide +kernel

theorem enumType?_eq : t.enumType? "Tag" = none ∧ t.enumType? "int" = none ∧ t.enumType? "bool" = none ∧
    t.enumType? "Color" = some "Color" := by
  simp only [Table.enumType?, ht.chase_eq_listed hds, ht.get?_eq_find? hds]
  decide +kernel

theorem pattern_literal : ∀ l ∈ ["1", "2", "3"], t.pattern none l = .literal l := by
  simp only [Table.pattern, ht.integer?_eq_listed hds, ht.resolve_eq_listed hds]
  decide +kernel

theorem pattern_name : ∀ l ∈ ["TRUE", "FALSE", "RED", "GREEN"], ∀ enum, t.pattern enum l = .name l := by
  have hinteger : ∀ l ∈ ["TRUE", "FALSE", "RED", "GREEN"], t.integer? l = none := by
    simp only [ht.integer?_eq_listed hds]
    decide +kernel
  exact fun l hl enum => pattern_eq_name_iff.2 ⟨rfl, hinteger l hl⟩

theorem tagValue_eq : t.tagValue "0" = .number 0 ∧ t.tagValue "1" = .number 1 := by
  have hinteger : t.integer? "0" = some 0 ∧ t.integer? "1" = some 1 := by
    simp only [ht.integer?_eq_listed hds]
    decide +kernel
  rw [Table.tagValue, Table.tagValue, hinteger.1, hinteger.2]
  exact ⟨rfl, rfl⟩

/-- the code of the enums and unions, each where it is asked for -/
theorem products_eq :
    (Demand.declared enumColor).product? t = some ⟨false, colorType.code⟩ ∧
    (Demand.declared unionU).product? t = some ⟨false, .union U.type.code⟩ ∧
    (Demand.declared unionStrict).product? t = some ⟨false, .union Strict.type.code⟩ ∧
    (Demand.declared unionMaybe).product? t = some ⟨false, .union Maybe.type.code⟩ ∧
    (Demand.declared unionPaint).product? t = some ⟨false, .union Paint.type.code⟩ ∧
    (Demand.inline "_Record_extra" unionExtra).product? t = some ⟨true, .union Extra.type.code⟩ ∧
    (Demand.inline "_Switch" enumSwitch).product? t = some ⟨true, switchType.code⟩ := by
  obtain ⟨htag, hint, hbool, hcolor⟩ := enumType?_eq ht hds
  obtain ⟨hzero, hone⟩ := tagValue_eq ht hds
  have hliteral := pattern_literal ht hds
  have hname := pattern_name ht hds
  simp only [List.forall_mem_cons] at hliteral hname
  simp only [Demand.product?, Definition.codeAs, enumColor, unionU, unionStrict, unionMaybe, unionPaint, unionExtra,
    enumSwitch, htag, hint, hbool, hcolor, Arm.code, List.map_cons, List.map_nil, hliteral, hname, hzero, hone]
  and_intros <;> rfl

theorem demandsAs_eq : ∀ d ∈ definitions, d.demandsAs t d.id = asked d := by
  obtain ⟨hlimit, hblob, hunbounded, hscores⟩ := bound_eq ht hds
  have hposition : memberTypeName "Record" "position" = "_Record_position" := (memberTypeName_eq _ _).trans (by decide)
  have hextra : memberTypeName "Record" "extra" = "_Record_extra" := (memberTypeName_eq _ _).trans (by decide)
  have hswitch : underscored "Switch" = "_Switch" := (underscored_eq _).trans (by decide)
  simp only [definitions, List.forall_mem_cons, List.not_mem_nil, false_implies, implies_true, and_true, Definition.id,
    Definition.demandsAs, Decl.demandsAs, structRecord, typedefSwitch, fieldDemands, hposition, hextra, hswitch,
    Table.container?, hlimit, hblob, hunbounded, hscores]
  and_intros <;> rfl

theorem demands_eq : t.demands = definitions.flatMap fun d => asked d ++ [.declared d] := by
  rw [Table.demands, hds]
  exact List.flatMap_congr fun d hd => congrArg (· ++ [Demand.declared d]) (demandsAs_eq ht hds d hd)

/-- no two of the types made for it have one name -/
theorem nodup_madeNames : (madeNames t t.demands).Nodup := by
  have hcontainers : ∀ c ∈ [(⟨.scalar, "string", toString 32⟩ : Container), ⟨.vec, "opaque", toString 16⟩,
      ⟨.vec, "int", toString 3⟩], c.name t = "_" ++ c.base ++ "_" ++ c.bound := by
    simp only [List.forall_mem_cons, List.not_mem_nil, false_implies, implies_true, and_true]
    refine ⟨?_, ?_, ?_⟩ <;> exact name_container ht (by decide) (by decide) (by decide) _ _
  have hmade : madeNames t t.demands = ["_Record_position", "_Record_extra", "_Switch"] ++
      [(⟨.scalar, "string", toString 32⟩ : Container), ⟨.vec, "opaque", toString 16⟩,
        ⟨.vec, "int", toString 3⟩].map (Container.name t) := by
    rw [demands_eq ht hds]
    rfl
  rw [hmade, List.map_congr_left hcontainers]
  decide

/-- the unions and enums among what each definition asks for -/
theorem sums_eq : ∀ d ∈ definitions, (((asked d ++ [Demand.declared d]).filterMap (Demand.product? t)).map
    Product.fragment).filter Fragment.isSum = sums d := by
  have hproducts := products_eq ht hds
  have hasked : asked enumColor = [] ∧ asked unionU = [] ∧ asked unionStrict = [] ∧ asked unionMaybe = [] ∧
      asked unionPaint = [] ∧ asked typedefSwitch = [.inline "_Switch" enumSwitch] ∧
      asked structRecord = [.container ⟨.vec, "int", toString 3⟩, .inline "_Record_position" structPosition,
        .inline "_Record_extra" unionExtra] := ⟨rfl, rfl, rfl, rfl, rfl, rfl, rfl⟩
  simp only [definitions, List.forall_mem_cons, List.not_mem_nil, false_implies, implies_true, and_true, hasked,
    List.nil_append, List.cons_append, List.filterMap_cons, hproducts]
  and_intros <;> rfl

/-- **The enums and unions of the sample are those that are generated.** -/
theorem sums_generated : t.emission.fragments.toList.filter Fragment.isSum =
    [colorType.code, .union U.type.code, .union Strict.type.code, .union Maybe.type.code, .union Paint.type.code,
      .union Extra.type.code, switchType.code] := by
  rw [fragments_of_nodup ht.sound.grammatical (nodup_madeNames ht hds), demands_eq ht hds, List.filterMap_flatMap,
    List.map_flatMap, List.filter_flatMap, List.flatMap_congr (sums_eq ht hds)]
  rfl

end

/-- **Every text of the sample schema is accepted, and the unions and enums that are generated for it are the sample's**,
in the order of generation: the union that is declared in the record comes before the record, under the name made for
it. -/
theorem samples_generated {source : String}
    (hread : ((scan source).bind fun s => Grammar.parse s.tokens) = .ok definitions) :
    ∃ t : Table, Table.empty.addSource source = (t, .ok 22) ∧ t.definitions.toList = definitions ∧
      t.emission.fragments.toList.filter Fragment.isSum =
        [colorType.code, .union U.type.code, .union Strict.type.code, .union Maybe.type.code, .union Paint.type.code,
          .union Extra.type.code, switchType.code] := by
  obtain ⟨t, hadd, ht, hds⟩ := exists_table_of_parse hread acceptable_definitions
  exact ⟨t, hadd, hds, sums_generated ht hds⟩

/-- the text that is written for the definitions is one of them -/
theorem samples_readable :
    ((scan (schemaText definitions)).bind fun s => Grammar.parse s.tokens) = .ok definitions := by
  obtain ⟨s, hscan, hparse⟩ := exists_scan_schemaText grammatical_definitions
  exact Table.bind_parse_of_scan hscan hparse

end Sample

end Xdr
