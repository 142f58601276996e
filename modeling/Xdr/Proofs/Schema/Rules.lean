/-
The rules of a schema, without the order in which they are checked.

`Lawful` says what holds between the members, the labels and the tags of one definition. A definition is valid when it
and every body inside of it are lawful; the tags that it brings are those of all enums among them.
- `mem_bodies_iff`: the bodies of a definition, as a list.
- `validate_eq_ok_iff_within`: validation checks the rules at every depth, and nothing else.
- `map_fst_tags`: the tags of a definition are those of the enums in it, each as often as it is written.
-/
import Xdr.Proofs.Schema.Tags

namespace Xdr

/-- members, labels and tags that go together -/
def Definition.Lawful : Definition → Prop
  | .struct _ fields => (fields.map Decl.id).Nodup
  | .union _ tagId _ arms _ =>
    (labels arms).Nodup ∧ (arms.filter Arm.isDefault).length ≤ 1 ∧ (tagId :: (members arms).map Decl.id).Nodup
  | .enum _ tags => (tags.map EnumTag.id).Nodup
  | .const .. | .typedef _ | .program _ => True

instance : DecidablePred Definition.Lawful
  | .struct .. => inferInstanceAs (Decidable (List.Nodup _))
  | .union .. => inferInstanceAs (Decidable (_ ∧ _ ∧ _))
  | .enum .. => inferInstanceAs (Decidable (List.Nodup _))
  | .const .. | .typedef _ | .program _ => inferInstanceAs (Decidable True)

mutual

/-- the definition and the bodies inside of it, from the outermost on -/
def Definition.bodies : Definition → List Definition
  | .const id value => [.const id value]
  | .program p => [.program p]
  | .enum id tags => [.enum id tags]
  | .typedef d => .typedef d :: d.bodies
  | .struct id fields => .struct id fields :: fieldBodies fields
  | .union id tagId tagType arms hasDefault => .union id tagId tagType arms hasDefault :: armBodies arms

def Decl.bodies : Decl → List Definition
  | ⟨_, _, _, _, none⟩ => []
  | ⟨_, _, _, _, some b⟩ => b.bodies

def fieldBodies : List Decl → List Definition
  | [] => []
  | d :: ds => d.bodies ++ fieldBodies ds

def armBodies : List Arm → List Definition
  | [] => []
  | ⟨_, _, d⟩ :: as => d.bodies ++ armBodies as

end

/-- the tags of an enum -/
def Definition.ownTags : Definition → List String
  | .enum _ tags => tags.map EnumTag.id
  | _ => []

/-- the tags of every enum in a definition -/
def Definition.enumTags (d : Definition) : List String := d.bodies.flatMap Definition.ownTags

/-! ## Bodies -/

theorem Decl.bodies_eq (m : Decl) : m.bodies = m.body.elim [] Definition.bodies := by
  obtain ⟨id, type, q, bound, body⟩ := m
  cases body <;> rw [Decl.bodies] <;> rfl

theorem fieldBodies_eq (fields : List Decl) : fieldBodies fields = fields.flatMap Decl.bodies := by
  induction fields with
  | nil => rfl
  | cons d ds ih => rw [fieldBodies, ih, List.flatMap_cons]

theorem armBodies_eq (arms : List Arm) : armBodies arms = (arms.map Arm.decl).flatMap Decl.bodies := by
  induction arms with
  | nil => rfl
  | cons a as ih =>
    obtain ⟨cases, isDefault, d⟩ := a
    rw [armBodies, ih, List.map_cons, List.flatMap_cons]

theorem Definition.bodies_eq (d : Definition) : d.bodies = d :: d.decls.flatMap Decl.bodies := by
  cases d with
  | const | program | enum => rfl
  | typedef e =>
    rw [bodies, decls, List.flatMap_singleton]
  | struct id fields => rw [bodies, fieldBodies_eq, decls]
  | union id tagId tagType arms hasDefault => rw [bodies, armBodies_eq, decls]

/-- what is listed is what is inside of a definition, at any depth -/
theorem Definition.mem_bodies_iff {e d : Definition} : e ∈ d.bodies ↔ e.Within d := by
  constructor
  · intro h
    rw [bodies_eq, List.mem_cons, List.mem_flatMap] at h
    rcases h with rfl | ⟨m, hm, he⟩
    · exact .self e
    · rw [Decl.bodies_eq] at he
      cases hb : m.body with
      | none => simp [hb] at he
      | some b =>
        rw [hb, Option.elim_some] at he
        have : sizeOf b < sizeOf d := Nat.lt_trans (Decl.sizeOf_body_lt hb) (sizeOf_lt_of_mem_decls hm)
        exact .body (mem_bodies_iff.1 he) hm hb
  · intro h
    induction h with
    | self =>
      rw [bodies_eq]
      exact List.mem_cons_self
    | @body b d m _ hm hb ih =>
      rw [bodies_eq, List.mem_cons, List.mem_flatMap]
      refine .inr ⟨m, hm, ?_⟩
      rwa [Decl.bodies_eq, hb]
termination_by sizeOf d

/-! ## Validation -/

/-- validation checks the rules of a definition, and goes into the declarations that carry a value -/
theorem Definition.validate_eq_ok_iff (d : Definition) :
    d.validate = .ok () ↔ d.Lawful ∧ ∀ m ∈ d.values, m.validateBody = .ok () := by
  cases d with
  | const id v | program p => simp [validate, Lawful, values, decls]
  | typedef e => simp [validate, Lawful, values, decls]
  | struct id fields =>
    rw [validate, validateFields_eq_ok_iff]
    simp [Lawful, values, decls]
  | union id tagId tagType arms hasDefault =>
    rw [validate_union_eq_ok_iff, validateFields_eq_ok_iff]
    simp only [Lawful, values, List.nodup_cons, List.mem_map, List.mem_singleton, not_exists, not_and]
    tauto
  | enum id tags =>
    have hnodup : firstRepeat [] (tags.map EnumTag.id) = none ↔ (tags.map EnumTag.id).Nodup := by
      simp [firstRepeat_eq_none_iff]
    rw [validate, Lawful, ← hnodup]
    cases firstRepeat [] (tags.map EnumTag.id) <;> simp [values, decls]

/-- **A definition is valid when it is lawful at every depth.** -/
theorem Definition.validate_eq_ok_iff_within {d : Definition} (hg : d.grammaticalBody = true) :
    d.validate = .ok () ↔ ∀ e : Definition, e.Within d → e.Lawful := by
  constructor
  · intro hd e he
    exact (e.validate_eq_ok_iff.1 (validate_of_within he hg hd)).1
  · intro hlawful
    refine d.validate_eq_ok_iff.2 ⟨hlawful d (.self d), fun m hm => ?_⟩
    have hdecl := mem_decls_of_mem_values hm
    cases hb : m.body with
    | none =>
      obtain ⟨id, type, q, bound, body⟩ := m
      obtain rfl : body = none := hb
      rw [Decl.validateBody]
    | some b =>
      have : sizeOf b < sizeOf d := Nat.lt_trans (Decl.sizeOf_body_lt hb) (sizeOf_lt_of_mem_decls hdecl)
      have hbody := Decl.grammaticalBody_of_body (grammatical_of_mem_decls hg hdecl hb) hb
      rw [Decl.validateBody_eq hb]
      exact (validate_eq_ok_iff_within hbody).2 fun e he => hlawful e (.body he hdecl hb)
termination_by sizeOf d

/-! ## Tags -/

mutual

/-- the tags of a definition are those of its enums, whatever name it is generated under -/
theorem Definition.map_fst_tagsAs (name : String) (d : Definition) : (d.tagsAs name).map Prod.fst = d.enumTags := by
  cases d with
  | const | program => rfl
  | enum id tags => simp [Definition.tagsAs, Definition.enumTags, Definition.bodies, Definition.ownTags]
  | typedef e =>
    rw [Definition.tagsAs, e.map_fst_tagsAs]
    rfl
  | struct id fields =>
    rw [Definition.tagsAs, map_fst_fieldTags]
    rfl
  | union id tagId tagType arms hasDefault =>
    rw [Definition.tagsAs, map_fst_armTags]
    rfl

theorem Decl.map_fst_tagsAs (name : String) (m : Decl) :
    (m.tagsAs name).map Prod.fst = m.bodies.flatMap Definition.ownTags := by
  match m with
  | ⟨_, _, _, _, none⟩ => rfl
  | ⟨_, _, _, _, some b⟩ => exact b.map_fst_tagsAs name

theorem map_fst_fieldTags (parent : String) (fields : List Decl) :
    (fieldTags parent fields).map Prod.fst = (fieldBodies fields).flatMap Definition.ownTags := by
  match fields with
  | [] => rfl
  | d :: ds => rw [fieldTags, fieldBodies, List.map_append, List.flatMap_append, d.map_fst_tagsAs, map_fst_fieldTags]

theorem map_fst_armTags (parent : String) (arms : List Arm) :
    (armTags parent arms).map Prod.fst = (armBodies arms).flatMap Definition.ownTags := by
  match arms with
  | [] => rfl
  | ⟨_, _, d⟩ :: as =>
    rw [armTags, armBodies, List.map_append, List.flatMap_append, d.map_fst_tagsAs, map_fst_armTags]

end

theorem Definition.map_fst_tags (d : Definition) : d.tags.map Prod.fst = d.enumTags := d.map_fst_tagsAs d.id

end Xdr
