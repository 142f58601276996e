/-
Type names of a schema and their spellings in generated text.

A primitive is spelled as the type its values are held in; any other name is spelled as itself, as a raw identifier, or
with an underscore behind it.
- `Table.UsesType.isTypeWord`: the type names that a schema uses are those of primitives, and names.
- `typeRef_eq_iff`: two of them have one spelling exactly when one captures the other.
- `typeRef_eq_iff_captures`: so it is in every reachable table.
- `captured_accepted`: a schema that is accepted and has a type with the spelling of `int`.
-/
import Xdr.Code.Expr
import Xdr.Proofs.Table.Reachable

namespace Xdr

open Code

/-! ## Type names that are used -/

/-- a type name of a schema: that of a definition, or one that a value, a discriminant or a procedure has for its type,
at any depth -/
inductive Table.UsesType (t : Table) : String → Prop
  | defined {d : Definition} (hd : d ∈ t.definitions) (htype : d.isType = true) : UsesType t d.id
  | value {d e : Definition} {m : Decl} (hd : d ∈ t.definitions) (he : e.Within d) (hm : m ∈ e.values)
    (hnamed : m.body = none) : UsesType t m.typeName
  | discriminant {d : Definition} {id tagId tagType : String} {arms : List Arm} {hasDefault : Bool}
    (hd : d ∈ t.definitions) (he : (Definition.union id tagId tagType arms hasDefault).Within d) : UsesType t tagType
  | procedure {p : Program} {v : Version} {r : Procedure} {type : String} (hd : .program p ∈ t.definitions)
    (hv : v ∈ p.versions) (hr : r ∈ v.procedures) (htype : type ∈ r.result :: r.args) : UsesType t type

/-- the name of a primitive, or a name that a schema can define -/
def IsTypeWord (name : String) : Prop := (∃ p : Primitive, p.idlName = name) ∨ isName name = true

theorem isTypeWord_of_isTypeName {name : String} (h : isTypeName name = true) : IsTypeWord name := by
  rcases Bool.or_eq_true_iff.1 h with h | h
  · obtain ⟨p, -, hp⟩ := List.mem_map.1 (List.contains_iff_mem.1 h)
    exact .inl ⟨p, hp⟩
  · exact .inr h

theorem isTypeWord_of_isNamedUse {type bound : String} {q : Qualifier} (h : isNamedUse type q bound = true) :
    IsTypeWord type := by
  unfold isNamedUse at h
  split_ifs at h with hstring hopaque
  · exact .inl ⟨.string, hstring.symm⟩
  · exact .inl ⟨.opaqueBytes, hopaque.symm⟩
  · exact isTypeWord_of_isTypeName (Bool.and_eq_true_iff.1 h).1

theorem isTypeWord_of_isOperand {type : String} (h : isOperand type = true) : IsTypeWord type := by
  rcases Bool.or_eq_true_iff.1 h with h | h
  · exact .inl ⟨.void, (beq_iff_eq.1 h).symm⟩
  · exact isTypeWord_of_isTypeName h

/-- every type name of a reachable table is that of a primitive, or a name -/
theorem Table.UsesType.isTypeWord {t : Table} (ht : t.Reachable) {name : String} (h : t.UsesType name) :
    IsTypeWord name := by
  have hgrammatical := ht.sound.grammatical
  cases h with
  | @defined d hd _ => exact .inr (Bool.and_eq_true_iff.1 (hgrammatical d hd)).1
  | @value d e m hd he hm hnamed =>
    have hbody := grammaticalBody_of_within he (Bool.and_eq_true_iff.1 (hgrammatical d hd)).2
    have hmember := Definition.grammatical_of_mem_values hbody hm
    obtain ⟨id, type, q, bound, body⟩ := m
    obtain rfl : body = none := hnamed
    exact isTypeWord_of_isNamedUse (Bool.and_eq_true_iff.1 hmember).2
  | @discriminant d id tagId _ arms hasDefault hd he =>
    have hbody := grammaticalBody_of_within he (Bool.and_eq_true_iff.1 (hgrammatical d hd)).2
    simp only [Definition.grammaticalBody, Bool.and_eq_true] at hbody
    have htag : isDiscriminantType name = true := hbody.1.1.1.2
    exact isTypeWord_of_isNamedUse (isNamedUse_discriminant htag)
  | @procedure p v r _ hd hv hr htype =>
    have hp := (Bool.and_eq_true_iff.1 (hgrammatical _ hd)).2
    simp only [Definition.grammaticalBody, Program.grammatical, Bool.and_eq_true, List.all_eq_true] at hp
    have hversion := hp.2 v hv
    simp only [Version.grammatical, Bool.and_eq_true, List.all_eq_true] at hversion
    have hprocedure := hversion.2 r hr
    simp only [Procedure.grammatical, Bool.and_eq_true, List.all_eq_true] at hprocedure
    rcases List.mem_cons.1 htype with rfl | harg
    · exact isTypeWord_of_isOperand hprocedure.1.1.2
    · exact isTypeWord_of_isOperand (hprocedure.2 name harg)

/-! ## Spellings -/

/-- words that no mark makes an identifier -/
def underscoredWords : List String := ["self", "Self", "super", "crate"]

/-- a type `a` takes the spelling of `b`: that of a primitive, or that of a word with an underscore behind it -/
def Captures (a b : String) : Prop :=
  (∃ p : Primitive, b = p.idlName ∧ a = p.storage) ∨ (b ∈ underscoredWords ∧ a = b ++ "_")

theorem ident_cases (name : String) : (name ∈ underscoredWords ∧ ident name = name ++ "_") ∨
    ident name = "r#" ++ name ∨ ident name = name := by
  unfold ident
  split_ifs with hword
  · exact .inl ⟨List.contains_iff_mem.1 hword, rfl⟩
  · exact .inr (.inl rfl)
  · exact .inr (.inr rfl)
  · exact .inr (.inl rfl)

theorem isWordChar_of_isName {name : String} (h : isName name = true) : ∀ c ∈ name.toList, isWordChar c = true := by
  have hword := (Bool.and_eq_true_iff.1 h).1
  unfold isWord at hword
  cases hname : name.toList with
  | nil => exact nofun
  | cons c r =>
    rw [hname] at hword
    simp only [Bool.and_eq_true, Bool.or_eq_true, decide_eq_true_eq, List.all_eq_true] at hword
    rw [List.forall_mem_cons]
    refine ⟨?_, hword.2⟩
    rcases hword.1 with hletter | rfl
    · exact isWordChar_of_isAlpha hletter
    · rfl

/-- a name has no mark of a raw identifier -/
theorem mark_not_mem {name : String} (h : isName name = true) : '#' ∉ name.toList :=
  fun hmem => absurd (isWordChar_of_isName h '#' hmem) (by decide)

theorem ofIdlName?_of_isName {name : String} (h : isName name = true) : Primitive.ofIdlName? name = none := by
  cases hp : Primitive.ofIdlName? name with
  | none => rfl
  | some p =>
    rw [← Primitive.idlName_of_ofIdlName? hp] at h
    cases p <;> exact absurd h (by decide)

theorem typeRef_of_isName {name : String} (h : isName name = true) : typeRef name = ident name := by
  rw [typeRef, ofIdlName?_of_isName h]

theorem typeRef_idlName (p : Primitive) : typeRef p.idlName = p.storage := by
  rw [typeRef, Primitive.ofIdlName?_idlName]

theorem storage_inj {p q : Primitive} (h : p.storage = q.storage) : p = q := by
  cases p <;> cases q <;> first | rfl | exact absurd h (by decide)

theorem typeRef_storage (p : Primitive) : typeRef p.storage = p.storage := by
  cases p <;> decide +kernel

theorem typeRef_underscored {name : String} (h : name ∈ underscoredWords) :
    typeRef name = name ++ "_" ∧ typeRef (name ++ "_") = name ++ "_" := by
  simp only [underscoredWords, List.mem_cons, List.not_mem_nil, or_false] at h
  rcases h with rfl | rfl | rfl | rfl <;> decide +kernel

/-- a type has the spelling of what it captures -/
theorem typeRef_eq_of_captures {a b : String} (h : Captures a b) : typeRef a = typeRef b := by
  rcases h with ⟨p, rfl, rfl⟩ | ⟨hb, rfl⟩
  · rw [typeRef_storage, typeRef_idlName]
  · rw [(typeRef_underscored hb).1, (typeRef_underscored hb).2]

/-- a raw identifier is no name, nor one with an underscore behind it -/
theorem raw_ne {a b : String} (hb : isName b = true) : "r#" ++ a ≠ b ∧ "r#" ++ a ≠ b ++ "_" := by
  have hmark := mark_not_mem hb
  constructor
  · rintro rfl
    simp at hmark
  · intro h
    have hmem : '#' ∈ (b ++ "_").toList := by
      rw [← h]
      simp
    simp [hmark] at hmem

/-- a name has the spelling of a primitive only as the name of what holds its values -/
theorem eq_storage_of_ident {a : String} {p : Primitive} (h : ident a = p.storage) : a = p.storage := by
  rcases ident_cases a with ⟨-, hident⟩ | hident | hident
  all_goals rw [hident] at h
  · have hlast := congrArg (fun s : String => s.toList.getLast?) h
    simp only [String.toList_append] at hlast
    cases p <;> simp [Primitive.storage] at hlast
  · have hfirst := congrArg (fun s : String => s.toList.take 2) h
    cases p <;> simp [Primitive.storage] at hfirst
  · exact h

/-- names with one spelling -/
theorem captures_of_ident_eq {a b : String} (ha : isName a = true) (hb : isName b = true) (h : ident a = ident b) :
    a = b ∨ Captures a b ∨ Captures b a := by
  rcases ident_cases a with ⟨haw, hia⟩ | hia | hia <;> rcases ident_cases b with ⟨hbw, hib⟩ | hib | hib
  all_goals rw [hia, hib] at h
  · exact .inl ((String.append_left_inj _).1 h)
  · exact absurd h.symm (raw_ne ha).2
  · exact .inr (.inr (.inr ⟨haw, h.symm⟩))
  · exact absurd h (raw_ne hb).2
  · exact .inl ((String.append_right_inj _).1 h)
  · exact absurd h (raw_ne hb).1
  · exact .inr (.inl (.inr ⟨hbw, h⟩))
  · exact absurd h.symm (raw_ne ha).1
  · exact .inl h

/-- two type names have one spelling exactly when one captures the other -/
theorem typeRef_eq_iff {a b : String} (ha : IsTypeWord a) (hb : IsTypeWord b) :
    typeRef a = typeRef b ↔ a = b ∨ Captures a b ∨ Captures b a := by
  constructor
  · intro h
    rcases ha with ⟨p, rfl⟩ | ha <;> rcases hb with ⟨q, rfl⟩ | hb
    · rw [typeRef_idlName, typeRef_idlName] at h
      rw [storage_inj h]
      exact .inl rfl
    · rw [typeRef_idlName, typeRef_of_isName hb] at h
      exact .inr (.inr (.inl ⟨p, rfl, eq_storage_of_ident h.symm⟩))
    · rw [typeRef_idlName, typeRef_of_isName ha] at h
      exact .inr (.inl (.inl ⟨q, rfl, eq_storage_of_ident h⟩))
    · rw [typeRef_of_isName ha, typeRef_of_isName hb] at h
      exact captures_of_ident_eq ha hb h
  · rintro (rfl | h | h)
    · rfl
    · exact typeRef_eq_of_captures h
    · exact (typeRef_eq_of_captures h).symm

/-! ## Every table -/

/-- **Type names are told apart but for captures.** Two type names that a reachable table uses, at any depth, have one
spelling in generated text exactly when they are equal or one captures the other: as the name of the type that a
primitive is held in, or as a word that is kept from being a keyword with an underscore behind it. -/
theorem typeRef_eq_iff_captures {t : Table} (ht : t.Reachable) {a b : String} (ha : t.UsesType a) (hb : t.UsesType b) :
    typeRef a = typeRef b ↔ a = b ∨ Captures a b ∨ Captures b a :=
  typeRef_eq_iff (ha.isTypeWord ht) (hb.isTypeWord ht)

/-- a type, and a struct of two types -/
def captured : List Definition :=
  [.struct "i32" [⟨"v", "hyper", .scalar, "", none⟩],
    .struct "S" [⟨"n", "int", .scalar, "", none⟩, ⟨"m", "i32", .scalar, "", none⟩]]

theorem captured_source : Table.empty.addSource (schemaText captured) = (Table.ofDefinitions captured, .ok 2) := by
  refine Table.addSource_schemaText_of_nodup (by decide) ?_ ?_ (by decide)
  · exact List.forall_mem_cons.2 ⟨rfl, List.forall_mem_singleton.2 rfl⟩
  · exact List.forall_mem_cons.2 ⟨rfl, List.forall_mem_singleton.2 rfl⟩

theorem captured_uses : (Table.ofDefinitions captured).UsesType "i32" ∧ (Table.ofDefinitions captured).UsesType "hyper" ∧
    (Table.ofDefinitions captured).UsesType "int" := by
  have hmem : ∀ d ∈ captured, d ∈ (Table.ofDefinitions captured).definitions := fun d hd => Array.mem_toList_iff.1 hd
  have hfirst := hmem _ List.mem_cons_self
  have hsecond := hmem _ (List.mem_cons_of_mem _ List.mem_cons_self)
  exact ⟨.defined hfirst rfl, .value hfirst (.self _) List.mem_cons_self rfl,
    .value hsecond (.self _) List.mem_cons_self rfl⟩

theorem typeRef_eq_iff_captures_sample : (Table.ofDefinitions captured).Reachable ∧
    (Table.ofDefinitions captured).UsesType "i32" ∧ (Table.ofDefinitions captured).UsesType "hyper" ∧
    typeRef "i32" ≠ typeRef "hyper" := by
  have ht := Table.reachable_of_addSource captured_source
  obtain ⟨hword, hhyper, -⟩ := captured_uses
  refine ⟨ht, hword, hhyper, fun h => ?_⟩
  rcases (typeRef_eq_iff_captures ht hword hhyper).1 h with h | (⟨p, hp, hs⟩ | ⟨hmem, -⟩) | (⟨p, hp, -⟩ | ⟨hmem, -⟩)
  · exact absurd h (by decide)
  · cases p <;> first | exact absurd hp (by decide) | exact absurd hs (by decide)
  · exact absurd hmem (by decide)
  · cases p <;> exact absurd hp (by decide)
  · exact absurd hmem (by decide)

/-- **A schema is accepted, and a type of its own has the spelling of `int`.** -/
theorem captured_accepted : Table.empty.addSource (schemaText captured) = (Table.ofDefinitions captured, .ok 2) ∧
    (Table.ofDefinitions captured).UsesType "i32" ∧ (Table.ofDefinitions captured).UsesType "int" ∧
    "i32" ≠ "int" ∧ typeRef "i32" = typeRef "int" :=
  ⟨captured_source, captured_uses.1, captured_uses.2.2, by decide, typeRef_eq_of_captures (.inl ⟨.int, rfl, rfl⟩)⟩

end Xdr
