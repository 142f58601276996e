/-
The unions that are generated.

What a union's code chooses by is settled by the union and the table: the patterns of the labels, the default arm, the
names of the members (`IsCodeOf`). The state of the generation adds the types of the payloads only.
- `emitAs_union`: generating a union ends with its code.
- `mem_fragments_emission`: every union of an emission is the code of a union in some definition of the table.
- `proper_of_within`: the code of a union in a reachable table is proper.
- `union_views_agree`: the views of every union of a reachable table agree.
-/
import Xdr.Emission
import Xdr.Proofs.Code.Views
import Xdr.Proofs.Table.Reachable

namespace Xdr

open Code Emission

/-! ## Runs of the generation -/

theorem run_bind {α β : Type} (x : StateM Emission α) (f : α → StateM Emission β) (s : Emission) :
    (x >>= f) s = f (x s).1 (x s).2 := rfl

theorem run_map {α β : Type} (f : α → β) (x : StateM Emission α) (s : Emission) :
    (f <$> x) s = (f (x s).1, (x s).2) := rfl

theorem run_pure {α : Type} (a : α) (s : Emission) : (pure a : StateM Emission α) s = (a, s) := rfl

theorem run_claim (name : String) (s : Emission) :
    claim name s = (!s.names.contains name, { s with names := s.names.insert name }) := rfl

theorem run_push (e : Event) (f : Fragment) (s : Emission) :
    push e f s = ((), { s with events := s.events.push e, fragments := s.fragments.push f }) := rfl

/-! ## Code of a union -/

/-- what the choice among arms depends on: patterns, default arm or not, and the name of the payload -/
def Code.UnionArm.shape (a : UnionArm) : List Pattern × Bool × Option String :=
  (a.patterns, a.isDefault, a.payload.map Member.name)

/-- the same for an arm as a schema has it -/
def Arm.shape (t : Table) (enum : Option String) (a : Arm) : List Pattern × Bool × Option String :=
  (a.cases.map (t.pattern enum), a.isDefault, if a.decl.isVoid then none else some a.decl.id)

/-- the code of a union, whatever its name and the types of its payloads -/
def Code.UnionCode.IsCodeOf (u : UnionCode) (t : Table) : Definition → Prop
  | .union _ tagId tagType arms hasDefault =>
    u.tagName = tagId ∧ u.tagType = tagType ∧ u.hasDefault = hasDefault ∧
      u.arms.map UnionArm.shape = arms.map (Arm.shape t (t.enumType? tagType))
  | _ => False

theorem emitArms_shape (t : Table) (parent : String) (enum : Option String) (arms : List Arm) (s : Emission) :
    (emitArms t parent enum arms s).1.map UnionArm.shape = arms.map (Arm.shape t enum) := by
  induction arms generalizing s with
  | nil => simp [emitArms, run_pure]
  | cons a as ih =>
    obtain ⟨cases, isDefault, d⟩ := a
    rw [emitArms]
    cases hv : d.isVoid with
    | true => simp [run_bind, run_map, run_pure, ih, UnionArm.shape, Arm.shape, hv]
    | false => simp [run_bind, run_map, ih, UnionArm.shape, Arm.shape, hv]

theorem emitAs_union (t : Table) (name id tagId tagType : String) (arms : List Arm) (hasDefault : Bool) (s : Emission) :
    ∃ u : UnionCode, u.name = name ∧ u.IsCodeOf t (.union id tagId tagType arms hasDefault) ∧
      ((Definition.union id tagId tagType arms hasDefault).emitAs t name s).2.fragments =
        (emitArms t name (t.enumType? tagType) arms s).2.fragments.push (.union u) := by
  refine ⟨⟨name, tagId, tagType, (emitArms t name (t.enumType? tagType) arms s).1, hasDefault⟩, rfl,
    ⟨rfl, rfl, rfl, emitArms_shape t name (t.enumType? tagType) arms s⟩, ?_⟩
  rw [Definition.emitAs]
  rfl

theorem map_id_members (arms : List Arm) :
    (members arms).map Decl.id = arms.filterMap fun a => if a.decl.isVoid then none else some a.decl.id := by
  induction arms with
  | nil => rfl
  | cons a as ih =>
    cases hv : a.decl.isVoid <;> simp [members, hv] <;> exact ih

/-- the code of a valid union is proper -/
theorem proper_of_isCodeOf {t : Table} {u : UnionCode} {d : Definition} (hg : d.grammaticalBody = true)
    (hv : d.validate = .ok ()) (hu : u.IsCodeOf t d) : u.Proper := by
  cases d with
  | union name tagId tagType arms hasDefault =>
    obtain ⟨-, -, hdefault, hshape⟩ := hu
    simp only [Definition.grammaticalBody, Bool.and_eq_true, Bool.not_eq_true', List.isEmpty_eq_false_iff,
      beq_iff_eq] at hg
    obtain ⟨⟨⟨-, hne⟩, hany⟩, harms⟩ := hg
    obtain ⟨-, hone, hmembers⟩ := validate_union_eq_ok_iff.1 hv
    have hdefaults : u.arms.map UnionArm.isDefault = arms.map Arm.isDefault := by
      simpa [UnionArm.shape, Arm.shape, Function.comp_def] using congrArg (List.map fun s => s.2.1) hshape
    have hpayloads : u.payloads.map Member.name = (members arms).map Decl.id := by
      rw [map_id_members, UnionCode.payloads, List.map_filterMap]
      simpa [UnionArm.shape, Arm.shape, Function.comp_def] using congrArg (List.filterMap fun s => s.2.2) hshape
    refine ⟨?_, ?_, ?_, fun a ha hd => ?_, ?_⟩
    · intro hnil
      rw [hnil, List.map_nil, eq_comm, List.map_eq_nil_iff] at hshape
      exact hne hshape
    · calc u.hasDefault = (arms.map Arm.isDefault).any id := by rw [hdefault, hany, List.any_map]; rfl
        _ = u.arms.any UnionArm.isDefault := by rw [← hdefaults, List.any_map]; rfl
    · calc (u.arms.filter UnionArm.isDefault).length = (u.arms.map UnionArm.isDefault).countP id := by
            rw [List.countP_map, List.countP_eq_length_filter]; rfl
        _ = (arms.filter Arm.isDefault).length := by
            rw [hdefaults, List.countP_map, List.countP_eq_length_filter]; rfl
        _ ≤ 1 := hone
    · obtain ⟨b, hb, hab⟩ := List.mem_map.1 (hshape ▸ List.mem_map_of_mem ha)
      simp only [UnionArm.shape, Arm.shape, Prod.mk.injEq] at hab
      have harm := grammaticalArms_iff.1 harms b hb
      simp only [Arm.grammatical, labelled, hab.2.1, hd, Bool.false_eq_true, if_false, Bool.and_eq_true,
        Bool.not_eq_true', List.isEmpty_eq_false_iff] at harm
      rw [← hab.1]
      simpa using harm.1.1
    · rw [hpayloads]
      exact (validateFields_eq_ok_iff.1 hmembers).1
  | _ => exact hu.elim

/-! ## Unions of an emission -/

/-- every union that is new in `s'` is the code of a definition with `P` -/
def Adds (t : Table) (P : Definition → Prop) (s s' : Emission) : Prop :=
  ∀ u : UnionCode, .union u ∈ s'.fragments → .union u ∈ s.fragments ∨ ∃ e, P e ∧ u.IsCodeOf t e

variable {t : Table} {P Q : Definition → Prop} {s s₁ s' : Emission}

theorem Adds.of_eq (h : s'.fragments = s.fragments) : Adds t P s s' := fun _ hu => .inl (h ▸ hu)

theorem Adds.trans (h : Adds t P s s₁) (h' : Adds t P s₁ s') : Adds t P s s' := by
  intro u hu
  rcases h' u hu with hu | hu
  · exact h u hu
  · exact .inr hu

theorem Adds.mono (h : Adds t P s s') (hPQ : ∀ e, P e → Q e) : Adds t Q s s' := by
  intro u hu
  rcases h u hu with hu | ⟨e, he, hcode⟩
  · exact .inl hu
  · exact .inr ⟨e, hPQ e he, hcode⟩

theorem Adds.of_push {f : Fragment} (h : s'.fragments = s.fragments.push f)
    (hf : ∀ u, f = .union u → ∃ e, P e ∧ u.IsCodeOf t e) : Adds t P s s' := by
  intro u hu
  rw [h] at hu
  rcases Array.mem_push.1 hu with hu | hu
  · exact .inl hu
  · exact .inr (hf u hu.symm)

theorem boundOf_adds (t : Table) (bound : String) (s : Emission) : Adds t P s (t.boundOf bound s).2 := by
  unfold Table.boundOf
  cases t.bound bound <;> exact .of_eq rfl

theorem materialize_adds (t : Table) (q : Qualifier) (base bound : String) (s : Emission) :
    Adds t P s (t.materialize q base bound s).2 := by
  unfold Table.materialize
  rw [run_bind]
  cases (claim (t.wrapperName base bound) s).1 with
  | true => exact .of_push (f := .wrapper _ _ _ _) rfl nofun
  | false => exact .of_eq rfl

/-- containers are no unions -/
theorem typeOf_adds (t : Table) (q : Qualifier) (base bound : String) (s : Emission) :
    Adds t P s (t.typeOf q base bound s).2 := by
  unfold Table.typeOf
  split_ifs
  · rw [run_bind]
    refine (boundOf_adds t bound s).trans ?_
    cases (t.boundOf bound s).1.text? with
    | some b => exact materialize_adds t q base b _
    | none => exact .of_eq rfl
  · exact .of_eq rfl

/-- a body of a declaration -/
def InlineIn (decls : List Decl) (e : Definition) : Prop := ∃ d ∈ decls, ∃ b, d.body = some b ∧ e.Within b

theorem InlineIn.within {e d : Definition} (h : InlineIn d.decls e) : e.Within d := by
  obtain ⟨decl, hdecl, b, hb, he⟩ := h
  exact .body he hdecl hb

theorem InlineIn.head {e : Definition} {d : Decl} {ds : List Decl} (h : InlineIn [d] e) : InlineIn (d :: ds) e := by
  obtain ⟨d', hd, hrest⟩ := h
  exact ⟨d', List.mem_singleton.1 hd ▸ List.mem_cons_self, hrest⟩

theorem InlineIn.tail {e : Definition} {d : Decl} {ds : List Decl} (h : InlineIn ds e) : InlineIn (d :: ds) e := by
  obtain ⟨d', hd, hrest⟩ := h
  exact ⟨d', List.mem_cons_of_mem d hd, hrest⟩

mutual

theorem emitAs_adds (t : Table) (name : String) (d : Definition) (s : Emission) :
    Adds t (fun e => e.Within d) s (d.emitAs t name s).2 := by
  match d with
  | .const id value =>
    rw [Definition.emitAs]
    exact .of_push (f := .const _ _ _) rfl nofun
  | .typedef e =>
    rw [Definition.emitAs, run_bind]
    exact ((typeAs_adds t (underscored name) e s).mono fun _ he => he.within (d := .typedef e)).trans
      (.of_push (f := .alias _ _) rfl nofun)
  | .struct id fields =>
    rw [Definition.emitAs, run_bind]
    exact ((emitFields_adds t name fields s).mono fun _ he => he.within (d := .struct id fields)).trans
      (.of_push (f := .struct _ _) rfl nofun)
  | .enum id tags =>
    rw [Definition.emitAs]
    exact .of_push (f := .enum _ _) rfl nofun
  | .union id tagId tagType arms hasDefault =>
    obtain ⟨u, -, hcode, hfragments⟩ := emitAs_union t name id tagId tagType arms hasDefault s
    refine ((emitArms_adds t name (t.enumType? tagType) arms s).mono fun _ he =>
      he.within (d := .union id tagId tagType arms hasDefault)).trans (.of_push hfragments ?_)
    rintro _ ⟨rfl⟩
    exact ⟨_, .self _, hcode⟩
  | .program p =>
    rw [Definition.emitAs]
    exact .of_eq rfl

theorem typeAs_adds (t : Table) (name : String) (d : Decl) (s : Emission) :
    Adds t (InlineIn [d]) s (d.typeAs t name s).2 := by
  match d with
  | ⟨id, type, q, bound, none⟩ =>
    rw [Decl.typeAs]
    exact typeOf_adds t q type bound s
  | ⟨id, type, q, bound, some b⟩ =>
    rw [Decl.typeAs, run_bind]
    cases (claim name s).1 with
    | true =>
      have hbody := (emitAs_adds t name b (claim name s).2).mono fun e he =>
        (⟨_, List.mem_singleton_self _, b, rfl, he⟩ : InlineIn [⟨id, type, q, bound, some b⟩] e)
      exact (Adds.of_eq rfl).trans (hbody.trans (typeOf_adds t q name bound _))
    | false => exact (Adds.of_eq rfl).trans (typeOf_adds t q name bound _)

theorem emitFields_adds (t : Table) (parent : String) (fields : List Decl) (s : Emission) :
    Adds t (InlineIn fields) s (emitFields t parent fields s).2 := by
  match fields with
  | [] => exact .of_eq rfl
  | d :: ds =>
    rw [emitFields, run_bind]
    exact ((typeAs_adds t (memberTypeName parent d.id) d s).mono fun _ => .head).trans
      ((emitFields_adds t parent ds _).mono fun _ => .tail)

theorem emitArms_adds (t : Table) (parent : String) (enum : Option String) (arms : List Arm) (s : Emission) :
    Adds t (InlineIn (arms.map Arm.decl)) s (emitArms t parent enum arms s).2 := by
  match arms with
  | [] => exact .of_eq rfl
  | ⟨cases, isDefault, d⟩ :: as =>
    have htail : ∀ s, Adds t (InlineIn (d :: as.map Arm.decl)) s (emitArms t parent enum as s).2 := fun s =>
      (emitArms_adds t parent enum as s).mono fun _ => .tail
    rw [emitArms]
    cases d.isVoid with
    | true => exact htail s
    | false => exact ((typeAs_adds t (memberTypeName parent d.id) d s).mono fun _ => .head).trans (htail _)

end

/-- every union of an emission is the code of a union in some definition of the table -/
theorem mem_fragments_emission {t : Table} {u : UnionCode} (h : .union u ∈ t.emission.fragments) :
    ∃ d ∈ t.definitions, ∃ e, e.Within d ∧ u.IsCodeOf t e := by
  have hall : ∀ (ds : List Definition) (s : Emission),
      Adds t (fun e => ∃ d ∈ ds, e.Within d) s ((ds.forM fun d => d.emit t) s).2 := by
    intro ds
    induction ds with
    | nil => exact fun s => .of_eq rfl
    | cons d ds ih =>
      intro s
      change Adds t _ s (ds.forM (fun d => d.emit t) (d.emit t s).2).2
      exact ((emitAs_adds t d.id d s).mono fun e he => ⟨d, List.mem_cons_self, he⟩).trans
        ((ih _).mono fun e ⟨d', hd, he⟩ => ⟨d', List.mem_cons_of_mem d hd, he⟩)
  rcases hall t.definitions.toList {} u h with hu | ⟨e, ⟨d, hd, he⟩, hcode⟩
  · exact absurd hu (by simp)
  · exact ⟨d, Array.mem_toList_iff.1 hd, e, he, hcode⟩

/-! ## The views of every union -/

/-- the code of a union in a reachable table is proper -/
theorem proper_of_within {t : Table} (ht : t.Reachable) {d e : Definition} (hd : d ∈ t.definitions) (he : e.Within d)
    {u : UnionCode} (hcode : u.IsCodeOf t e) : u.Proper := by
  have hbody := (Bool.and_eq_true_iff.1 (ht.sound.grammatical d hd)).2
  have hvalid := validate_of_within he hbody (ht.sound.valid d hd)
  exact proper_of_isCodeOf (grammaticalBody_of_within he hbody) hvalid hcode

/-- **The views of every union agree.** For a union at any depth of a definition in a reachable table, generated under
any name and in any state: the last fragment is its code, made of its labels and members in order, and under every
reading of the patterns the accessors, the test for validity and the dispatch of that code select the same arm. -/
theorem union_views_agree {t : Table} (ht : t.Reachable) {d : Definition} (hd : d ∈ t.definitions)
    {id tagId tagType : String} {arms : List Arm} {hasDefault : Bool}
    (hu : (Definition.union id tagId tagType arms hasDefault).Within d) (name : String) (s : Emission) :
    ∃ u : UnionCode,
      ((Definition.union id tagId tagType arms hasDefault).emitAs t name s).2.fragments.back? = some (.union u) ∧
      u.name = name ∧ u.IsCodeOf t (.union id tagId tagType arms hasDefault) ∧ u.ViewsAgree := by
  obtain ⟨u, hname, hcode, hfragments⟩ := emitAs_union t name id tagId tagType arms hasDefault s
  have hproper := proper_of_within ht hd hu hcode
  exact ⟨u, by rw [hfragments, Array.back?_push], hname, hcode, hproper.viewsAgree⟩

/-- two labels of one arm, a void arm and a default arm -/
def sampleArms : List Arm :=
  [⟨["1", "2"], false, ⟨"a", "int", .scalar, "", none⟩⟩, ⟨["3"], false, .void⟩,
    ⟨[], true, ⟨"b", "hyper", .scalar, "", none⟩⟩]

def sampleUnion : Definition := .union "U" "t" "int" sampleArms true

/-- the table of the canonical text of that union -/
def sampleTable : Table := (Table.empty.addSource (schemaText [sampleUnion])).1

theorem sampleTable_eq : sampleTable = Table.empty.extend sampleUnion := by
  rw [sampleTable, Table.addSource_schemaText (by decide) rfl rfl]

theorem mem_sampleTable : sampleUnion ∈ sampleTable.definitions := by
  rw [sampleTable_eq]
  simp [Table.extend]

theorem union_views_agree_sample : sampleTable.Reachable ∧ sampleUnion ∈ sampleTable.definitions ∧
    sampleUnion.Within sampleUnion ∧ ∃ u : UnionCode,
      (sampleUnion.emitAs sampleTable "U" {}).2.fragments.back? = some (.union u) ∧
      u.name = "U" ∧ u.IsCodeOf sampleTable sampleUnion ∧ u.ViewsAgree :=
  ⟨.addSource .empty _, mem_sampleTable, .self _,
    union_views_agree (.addSource .empty _) mem_sampleTable (.self _) "U" {}⟩

/-- the same for every union in what is generated for the table -/
theorem viewsAgree_of_mem_emission {t : Table} (ht : t.Reachable) {u : UnionCode}
    (h : .union u ∈ t.emission.fragments) : u.ViewsAgree := by
  obtain ⟨d, hd, e, he, hcode⟩ := mem_fragments_emission h
  exact (proper_of_within ht hd he hcode).viewsAgree

end Xdr
