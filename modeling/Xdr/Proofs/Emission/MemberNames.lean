/-
Names of members in what is generated.

The fields of a struct, the discriminant and the slot of a union, the accessors of a union and the variants of its slot
are named by what the schema calls them. Members of one definition have different names there; in generated text a word
that no mark makes an identifier gets an underscore behind it, and may then have the name of another one.
- `ident_eq_iff_twins`: names are written alike exactly when they are equal or one is the other, underscored.
- `nodup_map_ident_iff`: different names stay different exactly when no two of them are twins.
- `memberNames_nodup_iff`: so it is for every struct and union of a reachable table; the slot of a union meets only a
  discriminant that is called as it is.
- `twins_accepted`: a schema that is accepted and has members of one name in three ways.
-/
import Xdr.Proofs.Code.TypeNames
import Xdr.Proofs.Emission.EnumCasts
import Xdr.Proofs.Table.Acceptance

namespace Xdr

open Code

variable {t : Table} {a b w : String} {names : List String}

/-! ## Names and their spellings -/

/-- the first is a word that gets an underscore, and the second has it -/
def Twins (a b : String) : Prop := a ∈ underscoredWords ∧ b = a ++ "_"

/-- no word that gets an underscore stands beside its twin -/
def TwinFree (names : List String) : Prop := ∀ w ∈ underscoredWords, w ∈ names → w ++ "_" ∉ names

instance (names : List String) : Decidable (TwinFree names) := inferInstanceAs (Decidable (∀ w ∈ _, _))

theorem ident_of_underscored (h : w ∈ underscoredWords) : ident w = w ++ "_" ∧ ident (w ++ "_") = w ++ "_" := by
  simp only [underscoredWords, List.mem_cons, List.not_mem_nil, or_false] at h
  rcases h with rfl | rfl | rfl | rfl <;> decide +kernel

theorem ident_eq_of_twins (h : Twins a b) : ident a = ident b := by
  obtain ⟨ha, rfl⟩ := h
  rw [(ident_of_underscored ha).1, (ident_of_underscored ha).2]

theorem not_captures_primitive (hb : isName b = true) (p : Primitive) : b ≠ p.idlName := by
  rintro rfl
  cases p <;> exact absurd hb (by decide)

/-- **Names are written alike exactly when they are equal or twins.** -/
theorem ident_eq_iff_twins (ha : isName a = true) (hb : isName b = true) :
    ident a = ident b ↔ a = b ∨ Twins a b ∨ Twins b a := by
  constructor
  · intro h
    rcases captures_of_ident_eq ha hb h with heq | (⟨p, hp, -⟩ | htwins) | (⟨p, hp, -⟩ | htwins)
    · exact .inl heq
    · exact absurd hp (not_captures_primitive hb p)
    · exact .inr (.inr htwins)
    · exact absurd hp (not_captures_primitive ha p)
    · exact .inr (.inl htwins)
  · rintro (rfl | h | h)
    · rfl
    · exact ident_eq_of_twins h
    · exact (ident_eq_of_twins h).symm

theorem nodup_map_ident_iff (hnames : ∀ x ∈ names, isName x = true) (hn : names.Nodup) :
    (names.map ident).Nodup ↔ TwinFree names := by
  rw [List.nodup_map_iff_inj_on hn]
  constructor
  · intro hinj w hw hmem htwin
    have heq := hinj w hmem (w ++ "_") htwin (ident_eq_of_twins ⟨hw, rfl⟩)
    exact absurd (congrArg String.length heq) (by simp)
  · intro hfree x hx y hy h
    rcases (ident_eq_iff_twins (hnames x hx) (hnames y hy)).1 h with heq | ⟨hw, rfl⟩ | ⟨hw, rfl⟩
    · exact heq
    · exact absurd hy (hfree x hw hx)
    · exact absurd hx (hfree y hw hy)

/-- the name of the slot of a union -/
def slotName : String := "_u"

/-- a name is written as that of the slot only if it is that name -/
theorem ident_eq_slotName_iff (ha : isName a = true) : ident a = slotName ↔ a = slotName := by
  have hslot : ident slotName = slotName := by decide +kernel
  rw [← hslot, ident_eq_iff_twins ha (by decide), hslot]
  refine or_iff_left ?_
  rintro (⟨hw, htwin⟩ | ⟨hw, -⟩)
  · simp only [underscoredWords, List.mem_cons, List.not_mem_nil, or_false] at hw
    rcases hw with rfl | rfl | rfl | rfl <;> exact absurd htwin (by decide)
  · exact absurd hw (by decide)

/-! ## Names in a fragment -/

/-- the fields of the struct that a fragment declares: those of a struct, or the discriminant and the slot of a union -/
def Code.Fragment.fieldNames : Fragment → List String
  | .struct _ fields => fields.map fun m => ident m.name
  | .union u => ident u.tagName :: if u.hasSlot then [slotName] else []
  | _ => []

/-- the accessors of a union, which have the names of the variants of its slot -/
def Code.Fragment.accessorNames : Fragment → List String
  | .union u => u.payloads.map fun m => ident m.name
  | _ => []

/-- the names of the fields of a definition go together with one another, and a discriminant with the slot -/
def Definition.FieldsApart : Definition → Prop
  | .struct _ fields => TwinFree (fields.map Decl.id)
  | .union _ tagId _ arms _ => tagId = slotName → members arms = []
  | _ => True

/-- the names of the members of a union go together with one another -/
def Definition.MembersApart : Definition → Prop
  | .union _ _ _ arms _ => TwinFree ((members arms).map Decl.id)
  | _ => True

section

variable {d e : Definition} {f : Fragment} {name : String}

theorem fieldNames_nodup_iff (hg : e.grammaticalBody = true) (hl : e.Lawful) (hf : e.codeAs t name = some f) :
    f.fieldNames.Nodup ↔ e.FieldsApart := by
  cases e with
  | struct id fields =>
    obtain rfl := Option.some.inj hf
    have hmap : (Fragment.struct name (fields.map (Decl.member t name))).fieldNames =
        (fields.map Decl.id).map ident := by
      rw [Fragment.fieldNames, List.map_map, List.map_map]
      rfl
    rw [hmap]
    refine nodup_map_ident_iff (fun x hx => ?_) hl
    obtain ⟨m, hm, rfl⟩ := List.mem_map.1 hx
    exact Decl.isName_of_grammatical (grammaticalFields_iff.1 hg m hm)
  | union id tagId tagType arms hasDefault =>
    obtain rfl := Option.some.inj hf
    simp only [Definition.grammaticalBody, Bool.and_eq_true] at hg
    have htag := ident_eq_slotName_iff hg.1.1.1.1
    rw [Fragment.fieldNames, UnionCode.hasSlot, UnionCode.payloads, payloads_code, Definition.FieldsApart]
    cases hmembers : members arms with
    | nil => simp
    | cons m ms => simp [htag]
  | const | typedef | enum =>
    obtain rfl := Option.some.inj hf
    exact iff_of_true List.nodup_nil trivial
  | program => cases hf

theorem accessorNames_nodup_iff (hg : e.grammaticalBody = true) (hl : e.Lawful) (hf : e.codeAs t name = some f) :
    f.accessorNames.Nodup ↔ e.MembersApart := by
  cases e with
  | union id tagId tagType arms hasDefault =>
    obtain rfl := Option.some.inj hf
    have hmap : ((members arms).map (Decl.member t name)).map (fun m => ident m.name) =
        ((members arms).map Decl.id).map ident := by
      rw [List.map_map, List.map_map]
      rfl
    rw [Fragment.accessorNames, UnionCode.payloads, payloads_code, hmap]
    refine nodup_map_ident_iff (fun x hx => ?_) (List.nodup_cons.1 hl.2.2).2
    obtain ⟨m, hm, rfl⟩ := List.mem_map.1 hx
    exact Decl.isName_of_grammatical
      (Definition.grammatical_of_mem_values (d := .union id tagId tagType arms hasDefault) hg hm)
  | const | typedef | enum | struct =>
    obtain rfl := Option.some.inj hf
    exact iff_of_true List.nodup_nil trivial
  | program => cases hf

/-- a generation ends with the code of the definition -/
theorem back?_of_codeAs (hf : e.codeAs t name = some f) (s : Emission) :
    (e.emitAs t name s).2.fragments.back? = some f := by
  have h := (Generation.appends_own t ⟨e, name, s⟩).fragments
  rw [Generation.own, hf, Option.toList_some] at h
  change (e.emitAs t name s).2.fragments.toList = _ at h
  rw [← Array.getLast?_toList, h, List.getLast?_concat]

end

/-! ## Every table -/

/-- **Members keep different names exactly where no two of them are twins.** What is generated for a reachable table is
containers, and the code of definitions at any depth. The code of each of these, generated under any name, has fields of
different names exactly when no field is the twin of another, and, for a union, when no discriminant beside a slot has
the name of the slot; it has accessors and variants of different names exactly when no member is the twin of another.
Names of a schema are written alike for no other reason. -/
theorem memberNames_nodup_iff (ht : t.Reachable) :
    (∀ f ∈ t.emission.fragments, f.isContainer = true ∨
      ∃ d ∈ t.definitions, ∃ e : Definition, e.Within d ∧ e.codeAs t f.name = some f) ∧
    (∀ d ∈ t.definitions, ∀ e : Definition, e.Within d → ∀ name f, e.codeAs t name = some f →
      (∀ s, (e.emitAs t name s).2.fragments.back? = some f) ∧
      (f.fieldNames.Nodup ↔ e.FieldsApart) ∧ (f.accessorNames.Nodup ↔ e.MembersApart)) ∧
    ∀ a b, isName a = true → isName b = true → (ident a = ident b ↔ a = b ∨ Twins a b ∨ Twins b a) := by
  refine ⟨fun f hf => container_or_exists_codeAs hf, fun d hd e he name f hf => ?_, fun a b => ident_eq_iff_twins⟩
  have hbody := (Bool.and_eq_true_iff.1 (ht.sound.grammatical d hd)).2
  have hg := grammaticalBody_of_within he hbody
  have hl := (Definition.validate_eq_ok_iff_within hbody).1 (ht.sound.valid d hd) e he
  exact ⟨back?_of_codeAs hf, fieldNames_nodup_iff hg hl hf, accessorNames_nodup_iff hg hl hf⟩

/-- a struct with a keyword, and with a word that gets an underscore -/
def escapedSchema : List Definition :=
  [.struct "S" [⟨"type", "int", .scalar, "", none⟩, ⟨"self", "int", .scalar, "", none⟩]]

theorem memberNames_nodup_iff_sample : ∃ t, Table.empty.addSource (schemaText escapedSchema) = (t, .ok 1) ∧
    t.Reachable ∧ ∃ f ∈ t.emission.fragments, f.fieldNames = ["r#type", "self_"] ∧ f.fieldNames.Nodup := by
  have hg : ∀ d ∈ escapedSchema, d.grammatical = true := by decide
  obtain ⟨t, hadd, ht, hds⟩ := exists_table_of_acceptable hg (by decide)
  have hd : ∀ d ∈ escapedSchema, d ∈ t.definitions := fun d hd => Array.mem_toList_iff.1 (hds ▸ hd)
  have hmem := hd _ List.mem_cons_self
  refine ⟨t, hadd, ht, _, mem_emission_of_codeAs hmem rfl, ?_, ?_⟩
  · change [ident "type", ident "self"] = ["r#type", "self_"]
    decide +kernel
  · have hfree : TwinFree ["type", "self"] := by decide
    exact ((memberNames_nodup_iff ht).2.1 _ hmem _ (.self _) "S" _ rfl).2.1.2 hfree

/-- two fields that are twins, a discriminant with the name of the slot, and two arms that are twins -/
def twinSchema : List Definition :=
  [.struct "S" [⟨"self", "int", .scalar, "", none⟩, ⟨"self_", "int", .scalar, "", none⟩],
    .union "U" "_u" "int" [⟨["1"], false, ⟨"a", "int", .scalar, "", none⟩⟩] false,
    .union "V" "t" "int" [⟨["1"], false, ⟨"super", "int", .scalar, "", none⟩⟩,
      ⟨["2"], false, ⟨"super_", "int", .scalar, "", none⟩⟩] false]

/-- **A schema is accepted, and members of different names become one:** fields of a struct, the discriminant and the
slot of a union, and accessors of a union. -/
theorem twins_accepted : ∃ t, Table.empty.addSource (schemaText twinSchema) = (t, .ok 3) ∧
    (∃ f ∈ t.emission.fragments, f.name = "S" ∧ f.fieldNames = ["self_", "self_"]) ∧
    (∃ f ∈ t.emission.fragments, f.name = "U" ∧ f.fieldNames = ["_u", "_u"]) ∧
    ∃ f ∈ t.emission.fragments, f.name = "V" ∧ f.accessorNames = ["super_", "super_"] := by
  have hg : ∀ d ∈ twinSchema, d.grammatical = true := by decide
  obtain ⟨t, hadd, -, hds⟩ := exists_table_of_acceptable hg (by decide)
  have hd : ∀ d ∈ twinSchema, d ∈ t.definitions := fun d hd => Array.mem_toList_iff.1 (hds ▸ hd)
  have hS := hd _ List.mem_cons_self
  have hU := hd _ (List.mem_cons_of_mem _ List.mem_cons_self)
  have hV := hd _ (List.mem_cons_of_mem _ (List.mem_cons_of_mem _ List.mem_cons_self))
  refine ⟨t, hadd, ⟨_, mem_emission_of_codeAs hS rfl, rfl, ?_⟩, ⟨_, mem_emission_of_codeAs hU rfl, rfl, ?_⟩,
    ⟨_, mem_emission_of_codeAs hV rfl, rfl, ?_⟩⟩
  · change [ident "self", ident "self_"] = ["self_", "self_"]
    decide +kernel
  · change [ident "_u", slotName] = ["_u", "_u"]
    decide +kernel
  · change [ident "super", ident "super_"] = ["super_", "super_"]
    decide +kernel

end Xdr
