/-
The shape of what is read.

Whatever reads definitions relies on their shape without a check: a type is named or declared inline, `void` stands in
arms only, an array has a length, a union has arms and each of them labels or none. `Definition.Shaped` says this of one
definition, part by part.
- `Decl.shaped`, `Arm.shaped`, `Definition.shaped`: what the grammar allows has the shape.
- `shaped_of_read`: so have all definitions that are read from a source, at every depth.
-/
import Mathlib
import Xdr.Proofs.Table.Reachable

namespace Xdr

/-! ## Shape -/

/-- a declaration that carries a value -/
structure Decl.Shaped (d : Decl) : Prop where
  name : isName d.id = true
  value : d.isVoid = false
  /-- a type has a name, or else it is declared inline -/
  inline_iff : d.typeName = "" ↔ ∃ b, d.body = some b
  /-- what is declared inline is a struct, an enum or a union, and has no name yet -/
  body : ∀ b, d.body = some b → b.isBody = true ∧ b.id = ""
  string : d.typeName = Primitive.string.idlName → d.qualifier = .scalar
  bytes : d.typeName = Primitive.opaqueBytes.idlName → d.qualifier = .array ∨ d.qualifier = .vec
  scalar : d.qualifier = .scalar → d.typeName ≠ Primitive.string.idlName → d.bound = ""
  optional : d.qualifier = .optional → d.bound = ""
  array : d.qualifier = .array → d.bound ≠ ""

structure Arm.Shaped (a : Arm) : Prop where
  unlabelled_iff : a.cases = [] ↔ a.isDefault = true
  decl : a.decl = .void ∨ a.decl.Shaped

/-- a union is chosen by a named discriminant, and says whether it has a default arm -/
structure UnionShaped (tagId : String) (arms : List Arm) (hasDefault : Bool) : Prop where
  tag : isName tagId = true
  nonempty : arms ≠ []
  shaped : ∀ a ∈ arms, a.Shaped
  hasDefault_iff : hasDefault = true ↔ ∃ a ∈ arms, a.isDefault = true

/-- a definition, its inline bodies left aside -/
def Definition.Shaped : Definition → Prop
  | .const .. => True
  | .typedef d => d.Shaped
  | .struct _ fields => ∀ d ∈ fields, d.Shaped
  | .enum _ tags => tags ≠ []
  | .union _ tagId _ arms hasDefault => UnionShaped tagId arms hasDefault
  | .program p => p.versions ≠ [] ∧ ∀ v ∈ p.versions, v.procedures ≠ []

/-! ## Declarations -/

theorem isValue_ne_empty {v : String} (h : isValue v = true) : v ≠ "" := by
  rintro rfl
  exact absurd h (by decide)

theorem Qualifier.eq_empty_of_takes {q : Qualifier} {bound : String} (h : q.takes bound = true)
    (hq : q = .scalar ∨ q = .optional) : bound = "" := by
  rcases hq with rfl | rfl <;> simpa [takes] using h

theorem Qualifier.ne_empty_of_takes {bound : String} (h : Qualifier.array.takes bound = true) : bound ≠ "" :=
  isValue_ne_empty h

/-- a named type other than a string is taken with the bound of its qualifier -/
theorem takes_of_isNamedUse {type bound : String} {q : Qualifier} (h : isNamedUse type q bound = true)
    (hs : type ≠ Primitive.string.idlName) : q.takes bound = true := by
  rw [isNamedUse, if_neg hs] at h
  split_ifs at h <;> exact (Bool.and_eq_true_iff.1 h).2

theorem qualifier_of_string {bound : String} {q : Qualifier}
    (h : isNamedUse Primitive.string.idlName q bound = true) : q = .scalar := by
  rw [isNamedUse, if_pos rfl, Bool.and_eq_true, beq_iff_eq] at h
  exact h.1

theorem qualifier_of_opaqueBytes {bound : String} {q : Qualifier}
    (h : isNamedUse Primitive.opaqueBytes.idlName q bound = true) : q = .array ∨ q = .vec := by
  rw [isNamedUse, if_neg (by decide), if_pos rfl] at h
  simpa using (Bool.and_eq_true_iff.1 h).1

theorem Decl.shaped {d : Decl} (h : d.grammatical = true) : d.Shaped := by
  have hname := isName_of_grammatical h
  have hvalue := isVoid_of_grammatical h
  obtain ⟨id, type, q, bound, body⟩ := d
  cases body with
  | none =>
    simp only [grammatical, Bool.and_eq_true] at h
    have htype : type ≠ "" := isNamedUse_ne_empty h.2
    refine ⟨hname, hvalue, by simp [htype], nofun, ?_, ?_, fun hq hs => ?_, fun hq => ?_, fun hq => ?_⟩
    · rintro rfl
      exact qualifier_of_string h.2
    · rintro rfl
      exact qualifier_of_opaqueBytes h.2
    · exact Qualifier.eq_empty_of_takes (takes_of_isNamedUse h.2 hs) (.inl hq)
    all_goals
      -- a string has neither of these qualifiers
      have hs : type ≠ Primitive.string.idlName := by
        rintro rfl
        exact absurd ((qualifier_of_string h.2).symm.trans hq) (by decide)
      have htakes := takes_of_isNamedUse h.2 hs
    · exact Qualifier.eq_empty_of_takes htakes (.inr hq)
    · obtain rfl : q = .array := hq
      exact Qualifier.ne_empty_of_takes htakes
  | some b =>
    simp only [grammatical, Bool.and_eq_true, beq_iff_eq] at h
    obtain ⟨⟨⟨⟨⟨-, rfl⟩, htakes⟩, hbody⟩, hid⟩, -⟩ := h
    refine ⟨hname, hvalue, by simp, ?_, by simp [Primitive.idlName], by simp [Primitive.idlName], fun hq _ => ?_,
      fun hq => ?_, fun hq => ?_⟩
    · rintro _ ⟨⟩
      exact ⟨hbody, hid⟩
    · exact Qualifier.eq_empty_of_takes htakes (.inl hq)
    · exact Qualifier.eq_empty_of_takes htakes (.inr hq)
    · obtain rfl : q = .array := hq
      exact Qualifier.ne_empty_of_takes htakes

theorem Arm.shaped {a : Arm} (h : a.grammatical = true) : a.Shaped := by
  obtain ⟨cases, isDefault, d⟩ := a
  obtain ⟨hlabels, hd⟩ := Bool.and_eq_true_iff.1 h
  refine ⟨?_, (Bool.or_eq_true_iff.1 hd).imp Decl.eq_void_of_isNothing Decl.shaped⟩
  cases isDefault with
  | true => simpa [labelled] using hlabels
  | false =>
    simp only [labelled, Bool.false_eq_true, if_false, Bool.and_eq_true, Bool.not_eq_true',
      List.isEmpty_eq_false_iff] at hlabels
    simp [hlabels.1]

/-! ## Definitions -/

/-- what the grammar allows behind the name of a definition has the shape -/
theorem Definition.shaped {d : Definition} (h : d.grammaticalBody = true) : d.Shaped := by
  cases d with
  | const id value => trivial
  | typedef e => exact e.shaped h
  | struct id fields => exact fun e he => e.shaped (grammaticalFields_iff.1 h e he)
  | enum id tags =>
    simp only [grammaticalBody, Bool.and_eq_true, Bool.not_eq_true', List.isEmpty_eq_false_iff] at h
    exact h.1
  | union id tagId tagType arms hasDefault =>
    simp only [grammaticalBody, Bool.and_eq_true, Bool.not_eq_true', List.isEmpty_eq_false_iff, beq_iff_eq] at h
    obtain ⟨⟨⟨⟨htag, -⟩, hne⟩, hdefault⟩, harms⟩ := h
    refine ⟨htag, hne, fun a ha => a.shaped (grammaticalArms_iff.1 harms a ha), ?_⟩
    rw [hdefault, List.any_eq_true]
  | program p =>
    simp only [grammaticalBody, Program.grammatical, Bool.and_eq_true, Bool.not_eq_true', List.isEmpty_eq_false_iff,
      List.all_eq_true] at h
    refine ⟨h.1.2, fun v hv => ?_⟩
    have hversion := h.2 v hv
    simp only [Version.grammatical, Bool.and_eq_true, Bool.not_eq_true', List.isEmpty_eq_false_iff] at hversion
    exact hversion.1.2

/-- **What is read has the shape, at every depth.** Each definition that is read from a source has a name that is not
reserved; it and every body declared inline in it have the shape of a definition. -/
theorem shaped_of_read {source : String} {ds : List Definition}
    (h : ((scan source).bind fun s => Grammar.parse s.tokens) = .ok ds) :
    ∀ d ∈ ds, isName d.id = true ∧ ∀ e : Definition, e.Within d → e.Shaped := by
  intro d hd
  obtain ⟨hname, hbody⟩ := Bool.and_eq_true_iff.1 (Table.grammatical_of_scan h d hd)
  exact ⟨hname, fun e he => Definition.shaped (grammaticalBody_of_within he hbody)⟩

/-- a union in a struct, and an enum in the union -/
def rack : Definition :=
  .struct "rack" [⟨"slot", "", .scalar, "", some (.union "" "kind" "int"
      [⟨["1", "2"], false, ⟨"lamp", "", .vec, "", some (.enum "" [⟨"ON", "1"⟩])⟩⟩, ⟨[], true, .void⟩] true)⟩,
    ⟨"key", "opaque", .array, "4", none⟩, ⟨"label", "string", .scalar, "", none⟩]

def rackSource : String :=
  "struct rack \x7b union switch (int kind) \x7b case 1: case 2: enum \x7b ON = 1 \x7d lamp<>; " ++
    "default: void; \x7d slot; opaque key[4]; void; string label<>; \x7d;"

theorem shaped_of_read_rack : ((scan rackSource).bind fun s => Grammar.parse s.tokens) = .ok [rack] ∧
    isName rack.id = true ∧ ∀ e : Definition, e.Within rack → e.Shaped := by
  have hread : ((scan rackSource).bind fun s => Grammar.parse s.tokens) = .ok [rack] := by cbv
  exact ⟨hread, shaped_of_read hread rack (List.mem_singleton_self rack)⟩

end Xdr
