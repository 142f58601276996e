/-
What a valid definition guarantees, at every depth.

`e.Within d` says that `e` is `d` itself or the body of a type declared inline in it, at any depth.
- `validateFields_eq_ok_iff`, `validate_union_eq_ok_iff`: the rules that validation checks.
- `grammaticalBody_of_within`, `validate_of_within`: what the grammar and validation say of a definition holds of every
  body inside of it.
- `Decl.induction`: induction over declarations, from the values in a body to the declaration of the body.
-/
import Xdr.Proofs.Schema.Grammatical
import Xdr.Schema.Valid

namespace Xdr

/-! ## The rules -/

theorem validateFields_cons (parent : String) (seen : List String) (d : Decl) (ds : List Decl) :
    validateFields parent seen (d :: ds) = if d.id ∈ seen then .error (.member parent d.id) else
      d.validateBody.bind fun _ => validateFields parent (d.id :: seen) ds := by
  rw [validateFields]
  split_ifs <;> rfl

/-- fields have different names, none of them in `seen`, and valid bodies -/
theorem validateFields_eq_ok_iff {parent : String} {seen : List String} {fields : List Decl} :
    validateFields parent seen fields = .ok () ↔
      (fields.map Decl.id).Nodup ∧ (∀ d ∈ fields, d.id ∉ seen) ∧ ∀ d ∈ fields, d.validateBody = .ok () := by
  induction fields generalizing seen with
  | nil => simp [validateFields]
  | cons d ds ih =>
    rw [validateFields_cons]
    by_cases hseen : d.id ∈ seen
    · simp [hseen]
    · rw [if_neg hseen]
      cases hbody : d.validateBody with
      | error e => simp [Except.bind, hbody]
      | ok _ =>
        have hrest : (Except.ok () : Except Clash Unit).bind (fun _ => validateFields parent (d.id :: seen) ds) =
            validateFields parent (d.id :: seen) ds := rfl
        rw [hrest, ih, List.forall_mem_cons, List.forall_mem_cons, List.map_cons, List.nodup_cons]
        simp only [List.mem_map, List.mem_cons, not_or, hbody, hseen, not_false_eq_true, true_and, not_exists, not_and]
        constructor
        · rintro ⟨hnodup, hids, hbodies⟩
          exact ⟨⟨fun e he => (hids e he).1, hnodup⟩, fun e he => (hids e he).2, hbodies⟩
        · rintro ⟨⟨hne, hnodup⟩, hids, hbodies⟩
          exact ⟨hnodup, fun e he => ⟨hne e he, hids e he⟩, hbodies⟩

/-- the declarations of a union's arms that carry a value -/
def members (arms : List Arm) : List Decl := (arms.map Arm.decl).filter fun d => !d.isVoid

/-- arms are checked like fields, the void ones aside -/
theorem validateArms_eq (parent : String) (seen : List String) (arms : List Arm) :
    validateArms parent seen arms = validateFields parent seen (members arms) := by
  induction arms generalizing seen with
  | nil => simp [validateArms, validateFields, members]
  | cons a as ih =>
    obtain ⟨cases, isDefault, d⟩ := a
    rw [validateArms]
    by_cases hv : d.isVoid = true
    · rw [if_pos hv, ih]
      simp [members, hv]
    · rw [if_neg hv]
      have hcons : members (⟨cases, isDefault, d⟩ :: as) = d :: members as := by simp [members, hv]
      rw [hcons, validateFields_cons]
      simp only [ih]
      split_ifs <;> rfl

theorem validate_union_eq_ok_iff {id tagId tagType : String} {arms : List Arm} {hasDefault : Bool} :
    (Definition.union id tagId tagType arms hasDefault).validate = .ok () ↔
      (labels arms).Nodup ∧ (arms.filter Arm.isDefault).length ≤ 1 ∧
        validateFields id [tagId] (members arms) = .ok () := by
  rw [Definition.validate]
  cases hr : firstRepeat [] (labels arms) with
  | some l =>
    have hdup : ¬ (labels arms).Nodup := fun h => by
      rw [firstRepeat_eq_none_iff.2 ⟨h, by simp⟩] at hr
      cases hr
    simp [hdup]
  | none =>
    have hnodup := (firstRepeat_eq_none_iff.1 hr).1
    rw [validateArms_eq]
    by_cases hd : (arms.filter Arm.isDefault).length > 1
    · simp [hd, Nat.not_le.2 hd]
    · simp [hd, hnodup, Nat.not_lt.1 hd]

/-! ## Every depth -/

/-- the definition itself, or a body inside of it -/
inductive Definition.Within : Definition → Definition → Prop
  | self (d : Definition) : d.Within d
  | body {e b d : Definition} {decl : Decl} (h : e.Within b) (hdecl : decl ∈ d.decls) (hb : decl.body = some b) :
    e.Within d

theorem mem_members {arms : List Arm} {d : Decl} :
    d ∈ members arms ↔ (∃ a ∈ arms, a.decl = d) ∧ d.isVoid = false := by
  simp [members]

theorem Decl.grammaticalBody_of_body {d : Decl} {b : Definition} (h : d.grammatical = true) (hb : d.body = some b) :
    b.grammaticalBody = true := by
  obtain ⟨id, type, q, bound, body⟩ := d
  obtain rfl : body = some b := hb
  simp only [grammatical, Bool.and_eq_true] at h
  exact h.2

/-- the declarations of a grammatical definition that have a body are grammatical -/
theorem Definition.grammatical_of_mem_decls {d b : Definition} {decl : Decl} (h : d.grammaticalBody = true)
    (hdecl : decl ∈ d.decls) (hb : decl.body = some b) : decl.grammatical = true := by
  cases d with
  | const id v => cases hdecl
  | program p => cases hdecl
  | enum id tags => cases hdecl
  | typedef e =>
    rw [List.mem_singleton.1 hdecl]
    exact h
  | struct id fields => exact grammaticalFields_iff.1 h decl hdecl
  | union id tagId tagType arms hasDefault =>
    simp only [grammaticalBody, Bool.and_eq_true] at h
    obtain ⟨a, ha, rfl⟩ := List.mem_map.1 hdecl
    have harm := grammaticalArms_iff.1 h.2 a ha
    simp only [Arm.grammatical, Bool.and_eq_true] at harm
    refine (Bool.or_eq_true_iff.1 harm.2).resolve_left fun hn => ?_
    rw [Decl.eq_void_of_isNothing hn] at hb
    cases hb

theorem Decl.validateBody_eq {d : Decl} {b : Definition} (hb : d.body = some b) : d.validateBody = b.validate := by
  obtain ⟨id, type, q, bound, body⟩ := d
  obtain rfl : body = some b := hb
  rw [validateBody]

theorem Definition.validate_of_mem_decls {d b : Definition} {decl : Decl} (hg : d.grammaticalBody = true)
    (h : d.validate = .ok ()) (hdecl : decl ∈ d.decls) (hb : decl.body = some b) : b.validate = .ok () := by
  have hdg := grammatical_of_mem_decls hg hdecl hb
  rw [← Decl.validateBody_eq hb]
  cases d with
  | const id v => cases hdecl
  | program p => cases hdecl
  | enum id tags => cases hdecl
  | typedef e =>
    rw [List.mem_singleton.1 hdecl]
    rwa [validate] at h
  | struct id fields =>
    rw [validate] at h
    exact (validateFields_eq_ok_iff.1 h).2.2 decl hdecl
  | union id tagId tagType arms hasDefault =>
    obtain ⟨-, -, hmembers⟩ := validate_union_eq_ok_iff.1 h
    have hmem : decl ∈ members arms := mem_members.2 ⟨List.mem_map.1 hdecl, Decl.isVoid_of_grammatical hdg⟩
    exact (validateFields_eq_ok_iff.1 hmembers).2.2 decl hmem

theorem grammaticalBody_of_within {e d : Definition} (h : e.Within d) (hd : d.grammaticalBody = true) :
    e.grammaticalBody = true := by
  induction h with
  | self => exact hd
  | body _ hdecl hb ih => exact ih (Decl.grammaticalBody_of_body (Definition.grammatical_of_mem_decls hd hdecl hb) hb)

theorem validate_of_within {e d : Definition} (h : e.Within d) (hg : d.grammaticalBody = true)
    (hd : d.validate = .ok ()) : e.validate = .ok () := by
  induction h with
  | self => exact hd
  | body _ hdecl hb ih =>
    have hdecl' := Definition.grammatical_of_mem_decls hg hdecl hb
    exact ih (Decl.grammaticalBody_of_body hdecl' hb) (Definition.validate_of_mem_decls hg hd hdecl hb)

/-! ## Declarations that carry a value -/

/-- the declarations directly in a definition that carry a value -/
def Definition.values : Definition → List Decl
  | .union _ _ _ arms _ => members arms
  | d => d.decls

theorem Definition.mem_decls_of_mem_values {d : Definition} {m : Decl} (h : m ∈ d.values) : m ∈ d.decls := by
  cases d with
  | union id tagId tagType arms hasDefault => exact (List.mem_filter.1 h).1
  | _ => exact h

/-- a declaration with a body carries a value -/
theorem Definition.mem_values_of_mem_decls {d b : Definition} {m : Decl} (hd : d.grammaticalBody = true)
    (hm : m ∈ d.decls) (hb : m.body = some b) : m ∈ d.values := by
  cases d with
  | union id tagId tagType arms hasDefault =>
    exact mem_members.2 ⟨List.mem_map.1 hm, Decl.isVoid_of_grammatical (grammatical_of_mem_decls hd hm hb)⟩
  | _ => exact hm

/-- a declaration of an arm that is not void is grammatical -/
theorem Decl.grammatical_of_isVoid {d : Decl} (h : (d.isNothing || d.grammatical) = true) (hv : d.isVoid = false) :
    d.grammatical = true := by
  refine (Bool.or_eq_true_iff.1 h).resolve_left fun hn => ?_
  rw [Decl.eq_void_of_isNothing hn] at hv
  cases hv

theorem Definition.grammatical_of_mem_values {d : Definition} {m : Decl} (hd : d.grammaticalBody = true)
    (h : m ∈ d.values) : m.grammatical = true := by
  cases d with
  | const | enum | program => cases h
  | typedef e =>
    rw [List.mem_singleton.1 h]
    exact hd
  | struct id fields => exact grammaticalFields_iff.1 hd m h
  | union id tagId tagType arms hasDefault =>
    simp only [grammaticalBody, Bool.and_eq_true] at hd
    obtain ⟨⟨a, ha, rfl⟩, hv⟩ := mem_members.1 h
    have harm := grammaticalArms_iff.1 hd.2 a ha
    simp only [Arm.grammatical, Bool.and_eq_true] at harm
    exact Decl.grammatical_of_isVoid harm.2 hv

/-- values of a valid definition have different names -/
theorem Definition.values_nodup {d : Definition} (hd : d.validate = .ok ()) : (d.values.map Decl.id).Nodup := by
  cases d with
  | const | enum | program => exact List.Pairwise.nil
  | typedef e => exact List.pairwise_singleton _ _
  | struct id fields =>
    rw [validate] at hd
    exact (validateFields_eq_ok_iff.1 hd).1
  | union id tagId tagType arms hasDefault =>
    exact (validateFields_eq_ok_iff.1 (validate_union_eq_ok_iff.1 hd).2.2).1

theorem Definition.sizeOf_lt_of_mem_decls {d : Definition} {m : Decl} (h : m ∈ d.decls) : sizeOf m < sizeOf d := by
  cases d with
  | const | enum | program => cases h
  | typedef e =>
    rw [List.mem_singleton.1 h, Definition.typedef.sizeOf_spec]
    omega
  | struct id fields =>
    have hm := List.sizeOf_lt_of_mem (show m ∈ fields from h)
    rw [Definition.struct.sizeOf_spec]
    omega
  | union id tagId tagType arms hasDefault =>
    obtain ⟨a, ha, rfl⟩ := List.mem_map.1 h
    have hm := List.sizeOf_lt_of_mem ha
    have hd : sizeOf a.decl < sizeOf a := by
      cases a
      rw [Arm.mk.sizeOf_spec]
      dsimp only
      omega
    rw [Definition.union.sizeOf_spec]
    omega

theorem Decl.sizeOf_body_lt {d : Decl} {b : Definition} (h : d.body = some b) : sizeOf b < sizeOf d := by
  cases d
  subst h
  rw [Decl.mk.sizeOf_spec, Option.some.sizeOf_spec]
  omega

/-- what goes from the values in a body to the declaration of the body holds of every declaration -/
theorem Decl.induction {P : Decl → Prop}
    (h : ∀ d : Decl, (∀ b, d.body = some b → ∀ m ∈ b.values, P m) → P d) (d : Decl) : P d :=
  h d fun b hb m hm =>
    have : sizeOf m < sizeOf d :=
      Nat.lt_trans (Definition.sizeOf_lt_of_mem_decls (Definition.mem_decls_of_mem_values hm)) (Decl.sizeOf_body_lt hb)
    Decl.induction h m
termination_by sizeOf d

end Xdr
