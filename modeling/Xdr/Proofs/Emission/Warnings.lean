/-
Warnings of the generation.

What the generation reports is told by the definitions and containers that it makes, and by the bounds that it passes on
as they are written. Only these are warnings: each is for a container that is asked for, at any depth of the table.
- `warns_typeOf`, `warns_typeAs`, `warns_emit`: one declaration, with all that is declared in it, and one definition.
- `warns_emission`: the generation of a table.
-/
import Xdr.Proofs.Emission.Bounds

namespace Xdr

open Code Emission

variable {t : Table} {es es' : List Demand} {s s₁ s' : Emission} {e : Event}

/-! ## Loose bounds -/

/-- a bound is passed on as it is written when it leads to no number -/
theorem loose_of_bound {expr written : String} (h : t.bound expr = .verbatim written) :
    written = expr ∧ t.IsLoose expr := by
  unfold Table.bound at h
  split_ifs at h with hempty
  cases hv : t.integer? expr with
  | none =>
    simp only [hv, Bound.verbatim.injEq] at h
    exact ⟨h.symm, hempty, fun v hv' => by cases hv.symm.trans hv'⟩
  | some v =>
    simp only [hv] at h
    split_ifs at h with hnone hlimit
    obtain rfl := Bound.verbatim.inj h
    refine ⟨rfl, hempty, fun v' hv' => ?_⟩
    obtain rfl := Option.some.inj (hv.symm.trans hv')
    omega

/-- the event warns of the bound of a container among these demands -/
def WarnsOf (t : Table) (es : List Demand) (e : Event) : Prop :=
  ∃ c : Container, .container c ∈ es ∧ t.IsLoose c.bound ∧ e = .looseBound c.bound

/-- from `s` to `s'` no event is added that matters, but warnings of bounds among these demands -/
def Warns (t : Table) (es : List Demand) (s s' : Emission) : Prop :=
  ∃ new, s'.events.toList = s.events.toList ++ new ∧ ∀ e ∈ new, e.level = .debug ∨ WarnsOf t es e

theorem Warns.of_eq (h : s'.events = s.events) : Warns t es s s' := ⟨[], by simp [h], List.forall_mem_nil _⟩

theorem Warns.trans (h : Warns t es s s₁) (h' : Warns t es s₁ s') : Warns t es s s' := by
  obtain ⟨new, hnew, hall⟩ := h
  obtain ⟨new', hnew', hall'⟩ := h'
  exact ⟨new ++ new', by rw [hnew', hnew, List.append_assoc], List.forall_mem_append.2 ⟨hall, hall'⟩⟩

theorem Warns.mono (h : Warns t es s s') (hsub : ∀ d ∈ es, d ∈ es') : Warns t es' s s' := by
  obtain ⟨new, hnew, hall⟩ := h
  refine ⟨new, hnew, fun e he => (hall e he).imp_right ?_⟩
  rintro ⟨c, hc, hloose⟩
  exact ⟨c, hsub _ hc, hloose⟩

/-- the demands of two steps, one after the other -/
theorem Warns.append (h : Warns t es s s₁) (h' : Warns t es' s₁ s') : Warns t (es ++ es') s s' :=
  (h.mono fun _ => List.mem_append_left es').trans (h'.mono fun _ => List.mem_append_right es)

theorem Warns.of_push (he : e.level = .debug) (h : s'.events = s.events.push e) : Warns t es s s' :=
  ⟨[e], by rw [h, Array.toList_push], List.forall_mem_singleton.2 (.inl he)⟩

/-! ## Declarations and definitions -/

theorem level_event (f : Fragment) : f.event.level = .debug := by
  cases f <;> rfl

/-- a declaration of a base type warns of its own bound -/
theorem warns_typeOf (t : Table) (q : Qualifier) (base bound : String) (s : Emission) :
    Warns t ((t.container? q base bound).toList.map .container) s (t.typeOf q base bound s).2 := by
  refine ⟨_, (typeOf_gains t q base bound s).events, List.forall_mem_append.2 ⟨fun e he => .inr ?_, ?_⟩⟩
  · unfold Table.warnings at he
    split_ifs at he with hbounded
    · cases hbound : t.bound bound with
      | none | limit => simp [hbound, Bound.warnings] at he
      | verbatim written =>
        obtain ⟨rfl, hloose⟩ := loose_of_bound hbound
        rw [hbound, Bound.warnings, List.mem_singleton] at he
        refine ⟨⟨q, base, written⟩, ?_, hloose, he⟩
        simp [Table.container?, hbounded, hbound, Bound.text?]
    · cases he
  · rw [List.forall_mem_map]
    exact fun f _ => .inl (level_event f)

mutual

theorem warns_emitAs (t : Table) (name : String) (d : Definition) (s : Emission) :
    Warns t (d.demandsAs t name) s (d.emitAs t name s).2 := by
  match d with
  | .const id value =>
    rw [Definition.emitAs]
    exact .of_push rfl rfl
  | .typedef e =>
    rw [Definition.emitAs, run_bind, Definition.demandsAs]
    exact (warns_typeAs t (underscored name) e s).trans (.of_push rfl rfl)
  | .struct id fields =>
    rw [Definition.emitAs, run_bind, Definition.demandsAs]
    exact (warns_emitFields t name fields s).trans (.of_push rfl rfl)
  | .enum id tags =>
    rw [Definition.emitAs]
    exact .of_push rfl rfl
  | .union id tagId tagType arms hasDefault =>
    rw [Definition.emitAs, run_bind, Definition.demandsAs]
    exact (warns_emitArms t name (t.enumType? tagType) arms s).trans (.of_push rfl rfl)
  | .program p =>
    rw [Definition.emitAs]
    exact .of_push rfl rfl

theorem warns_typeAs (t : Table) (name : String) (d : Decl) (s : Emission) :
    Warns t (d.demandsAs t name) s (d.typeAs t name s).2 := by
  match d with
  | ⟨id, type, q, bound, none⟩ =>
    rw [Decl.typeAs, Decl.demandsAs]
    exact warns_typeOf t q type bound s
  | ⟨id, type, q, bound, some b⟩ =>
    rw [Decl.typeAs, Decl.demandsAs, run_bind]
    have hclaim : Warns t (b.demandsAs t name ++ [.inline name b]) s (claim name s).2 := .of_eq rfl
    by_cases h : name ∈ s.names
    · rw [claim_taken h]
      exact hclaim.append (warns_typeOf t q name bound _)
    · rw [claim_free h]
      have hbody : Warns t (b.demandsAs t name ++ [.inline name b]) (claim name s).2 _ :=
        (warns_emitAs t name b _).mono fun _ => List.mem_append_left _
      exact (hclaim.trans hbody).append (warns_typeOf t q name bound _)

theorem warns_emitFields (t : Table) (parent : String) (fields : List Decl) (s : Emission) :
    Warns t (fieldDemands t parent fields) s (emitFields t parent fields s).2 := by
  match fields with
  | [] => exact .of_eq rfl
  | d :: ds =>
    rw [emitFields, run_bind, fieldDemands]
    exact (warns_typeAs t (memberTypeName parent d.id) d s).append (warns_emitFields t parent ds _)

theorem warns_emitArms (t : Table) (parent : String) (enum : Option String) (arms : List Arm) (s : Emission) :
    Warns t (armDemands t parent arms) s (emitArms t parent enum arms s).2 := by
  match arms with
  | [] => exact .of_eq rfl
  | ⟨cases, isDefault, d⟩ :: as =>
    rw [emitArms, armDemands]
    cases hv : d.isVoid with
    | true => exact warns_emitArms t parent enum as s
    | false => exact (warns_typeAs t (memberTypeName parent d.id) d s).append (warns_emitArms t parent enum as _)

end

theorem warns_emit (t : Table) (d : Definition) (s : Emission) :
    Warns t (d.demandsAs t d.id ++ [.declared d]) s (d.emit t s).2 :=
  (warns_emitAs t d.id d s).mono fun _ => List.mem_append_left _

/-! ## The whole table -/

theorem warns_emission (t : Table) : Warns t t.demands {} t.emission := by
  have hall : ∀ (ds : List Definition) (s : Emission),
      Warns t (ds.flatMap fun d => d.demandsAs t d.id ++ [.declared d]) s ((ds.forM fun d => d.emit t) s).2 := by
    intro ds
    induction ds with
    | nil => exact fun _ => .of_eq rfl
    | cons d ds ih => exact fun s => (warns_emit t d s).append (ih _)
  exact hall t.definitions.toList {}

/-- **The warnings of a table are of bounds that are passed on as they are written.** -/
theorem warnsOf_of_mem_events (he : e ∈ t.emission.events) (hlevel : e.level ≠ .debug) : WarnsOf t t.demands e := by
  obtain ⟨new, hnew, hall⟩ := warns_emission t
  have hmem : e ∈ new := by simpa [hnew] using Array.mem_toList_iff.2 he
  exact (hall e hmem).resolve_left hlevel

end Xdr
