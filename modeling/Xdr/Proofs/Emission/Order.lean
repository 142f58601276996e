/-
The order of what is generated.

A `Generation` is one run of the generation of a definition: at the top level, or for a type declared inline, which its
definition asks for when the type's name is free (`Generation.Asks`). Fragments and the events that name them are only
added, and each together with the other (`Emission.Appends`).
- `Generation.appends_ready`, `Generation.appends_own`: a generation adds what its values ask for, then its own code.
- `inOrder_of_reflTransGen`: what is asked for at any depth is complete before the own code of who asks.
- `exists_makes`: what is generated is the code of a generation, or a container.
- `emission_ordered`: the fragments, the claimed names and the events of a reachable table.
-/
import Mathlib.Logic.Relation
import Xdr.Proofs.Emission.Claims

namespace Xdr

open Code Emission

variable {t : Table}

/-! ## Events that name fragments -/

/-- the event that names a fragment -/
def Code.Fragment.event : Fragment → Event
  | .const name .. => .generated "const" name
  | .alias name _ => .generated "typedef" name
  | .struct name _ => .generated "struct" name
  | .enum name _ => .generated "enum" name
  | .union u => .generated "union" u.name
  | .wrapper name _ bound _ => .materialized name bound

/-- names a fragment: one that was generated, or a container that was materialized -/
def Event.namesFragment : Event → Bool
  | .generated .. | .materialized .. => true
  | _ => false

@[simp] theorem namesFragment_event (f : Fragment) : f.event.namesFragment = true := by
  cases f <;> rfl

theorem event_of_codeAs {name : String} {d : Definition} {f : Fragment} (h : d.codeAs t name = some f) :
    f.event = .generated d.kind name := by
  cases d <;> cases h <;> rfl

theorem codeAs_eq_none_iff {name : String} {d : Definition} : d.codeAs t name = none ↔ d.kind = "program" := by
  cases d <;> simp [Definition.codeAs, Definition.kind]

namespace Emission

/-- the events that name fragments -/
def fragmentEvents (s : Emission) : List Event := s.events.toList.filter Event.namesFragment

/-- from `s` to `s'` fragments are added, with one event for each -/
structure Appends (s s' : Emission) (new : List Fragment) : Prop where
  fragments : s'.fragments.toList = s.fragments.toList ++ new
  events : s'.fragmentEvents = s.fragmentEvents ++ new.map Fragment.event

variable {s s₁ s' : Emission} {new new' : List Fragment}

theorem Appends.of_eq (hf : s'.fragments = s.fragments) (he : s'.fragmentEvents = s.fragmentEvents) :
    Appends s s' [] :=
  ⟨by simp [hf], by simp [he]⟩

theorem Appends.trans (h : Appends s s₁ new) (h' : Appends s₁ s' new') : Appends s s' (new ++ new') :=
  ⟨by rw [h'.fragments, h.fragments, List.append_assoc],
    by rw [h'.events, h.events, List.map_append, List.append_assoc]⟩

theorem run_report (e : Event) (s : Emission) : report e s = ((), { s with events := s.events.push e }) := rfl

theorem appends_report {e : Event} (he : e.namesFragment = false) (s : Emission) : Appends s (report e s).2 [] := by
  rw [run_report]
  exact .of_eq rfl (by simp [fragmentEvents, he])

theorem appends_push {e : Event} {f : Fragment} (he : e = f.event) (s : Emission) : Appends s (push e f s).2 [f] := by
  rw [run_push]
  exact ⟨Array.toList_push, by simp [fragmentEvents, he]⟩

theorem appends_claim (name : String) (s : Emission) : Appends s (claim name s).2 [] := .of_eq rfl rfl

/-- `s'` comes after `s`: nothing of `s` is moved or taken away -/
def Precedes (s s' : Emission) : Prop := ∃ new, Appends s s' new

theorem Precedes.refl (s : Emission) : Precedes s s := ⟨[], .of_eq rfl rfl⟩

theorem Precedes.trans (h : Precedes s s₁) (h' : Precedes s₁ s') : Precedes s s' := by
  obtain ⟨new, h⟩ := h
  obtain ⟨new', h'⟩ := h'
  exact ⟨new ++ new', h.trans h'⟩

theorem Appends.precedes (h : Appends s s' new) : Precedes s s' := ⟨new, h⟩

theorem Precedes.isPrefix (h : Precedes s s') : s.fragments.toList <+: s'.fragments.toList := by
  obtain ⟨new, h⟩ := h
  exact ⟨new, h.fragments.symm⟩

end Emission

/-! ## Containers -/

theorem boundOf_appends (t : Table) (bound : String) (s : Emission) : Appends s (t.boundOf bound s).2 [] := by
  unfold Table.boundOf
  cases t.bound bound with
  | verbatim e => exact appends_report rfl s
  | _ => exact .of_eq rfl rfl

theorem materialize_appends (t : Table) (q : Qualifier) (base bound : String) (s : Emission) :
    ∃ new, Appends s (t.materialize q base bound s).2 new ∧ ∀ f ∈ new, f.isContainer = true := by
  unfold Table.materialize
  rw [run_bind]
  cases (claim (t.wrapperName base bound) s).1 with
  | true =>
    refine ⟨_, (appends_claim _ s).trans (appends_push rfl _), ?_⟩
    exact List.forall_mem_singleton.2 rfl
  | false => exact ⟨[], appends_claim _ s, List.forall_mem_nil _⟩

/-- the type of a declaration of a base type adds a container at most -/
theorem typeOf_appends (t : Table) (q : Qualifier) (base bound : String) (s : Emission) :
    ∃ new, Appends s (t.typeOf q base bound s).2 new ∧ ∀ f ∈ new, f.isContainer = true := by
  unfold Table.typeOf
  split_ifs
  · rw [run_bind, boundOf_fst]
    have hbound := boundOf_appends t bound s
    cases (t.bound bound).text? with
    | none => exact ⟨[], hbound, List.forall_mem_nil _⟩
    | some b =>
      obtain ⟨new, hnew, hcontainers⟩ := materialize_appends t q base b (t.boundOf bound s).2
      exact ⟨new, hbound.trans hnew, hcontainers⟩
  · exact ⟨[], .of_eq rfl rfl, List.forall_mem_nil _⟩

/-! ## Generations -/

/-- one run of the generation of a definition: the name it goes by, and the state that it begins in -/
structure Generation where
  definition : Definition
  name : String
  start : Emission

namespace Generation

/-- the state when the first `k` values have their types -/
def upTo (t : Table) (g : Generation) (k : Nat) : Emission :=
  (g.definition.values.take k).foldl (fun s m => (m.typeAs t (g.definition.innerName g.name m.id) s).2) g.start

/-- the state when all values have their types, and only the definition's own code is left -/
def ready (t : Table) (g : Generation) : Emission := g.upTo t g.definition.values.length

def finish (t : Table) (g : Generation) : Emission := (g.definition.emitAs t g.name g.start).2

/-- the definition's own code -/
def own (t : Table) (g : Generation) : Option Fragment := g.definition.codeAs t g.name

/-- what is generated in the meantime -/
def inner (t : Table) (g : Generation) : List Fragment := (g.ready t).fragments.toList.drop g.start.fragments.size

end Generation

/-- the generation of the type that is declared in a declaration: under `name`, if the name is free -/
def Decl.generation? (name : String) (s : Emission) (m : Decl) : Option Generation :=
  m.body.bind fun b => if name ∈ s.names then none else some ⟨b, name, (claim name s).2⟩

/-- a value of the definition has its type generated, when the values before it have theirs -/
def Generation.Asks (t : Table) (g g' : Generation) : Prop :=
  ∃ (k : Nat) (m : Decl), g.definition.values[k]? = some m ∧
    m.generation? (g.definition.innerName g.name m.id) (g.upTo t k) = some g'

/-- a fragment is the own code of a definition that is generated in the course of `g`, or of `g` itself -/
def Generation.Makes (t : Table) (g : Generation) (f : Fragment) : Prop :=
  ∃ g', Relation.ReflTransGen (Generation.Asks t) g g' ∧ g'.own t = some f

/-- the type of a declaration follows the generation of the type that is declared in it, if there is one -/
theorem typeAs_cases (t : Table) (name : String) (m : Decl) (s : Emission) :
    ∃ s₁, (m.typeAs t name s).2 = (t.typeOf m.qualifier (m.baseName name) m.bound s₁).2 ∧
      ((m.generation? name s = none ∧ Appends s s₁ []) ∨
        ∃ g, m.generation? name s = some g ∧ s₁ = g.finish t) := by
  obtain ⟨id, type, q, bound, body⟩ := m
  cases body with
  | none =>
    rw [Decl.typeAs]
    exact ⟨s, rfl, .inl ⟨rfl, .of_eq rfl rfl⟩⟩
  | some b =>
    rw [Decl.typeAs, run_bind]
    by_cases h : name ∈ s.names
    · rw [claim_taken h]
      exact ⟨(claim name s).2, rfl, .inl ⟨by simp [Decl.generation?, h], appends_claim name s⟩⟩
    · rw [claim_free h]
      exact ⟨_, rfl, .inr ⟨⟨b, name, (claim name s).2⟩, by simp [Decl.generation?, h], rfl⟩⟩

/-- the generation that a declaration asks for is that of its body, begun with the name claimed -/
theorem eq_of_generation? {name : String} {s : Emission} {m : Decl} {g : Generation}
    (h : m.generation? name s = some g) : ∃ b, m.body = some b ∧ g = ⟨b, name, (claim name s).2⟩ := by
  obtain ⟨b, hb, h⟩ := Option.bind_eq_some_iff.1 h
  split_ifs at h
  exact ⟨b, hb, (Option.some.inj h).symm⟩

theorem appends_start {name : String} {s : Emission} {m : Decl} {g : Generation}
    (h : m.generation? name s = some g) : Appends s g.start [] := by
  obtain ⟨b, -, rfl⟩ := eq_of_generation? h
  exact appends_claim name s

theorem emitFields_snd (t : Table) (parent : String) (fields : List Decl) (s : Emission) :
    (emitFields t parent fields s).2 =
      fields.foldl (fun s m => (m.typeAs t (memberTypeName parent m.id) s).2) s := by
  induction fields generalizing s with
  | nil => rfl
  | cons d ds ih =>
    rw [emitFields, run_bind, run_bind, run_pure, List.foldl_cons]
    exact ih _

/-- void arms ask for nothing -/
theorem emitArms_snd (t : Table) (parent : String) (enum : Option String) (arms : List Arm) (s : Emission) :
    (emitArms t parent enum arms s).2 =
      (members arms).foldl (fun s m => (m.typeAs t (memberTypeName parent m.id) s).2) s := by
  induction arms generalizing s with
  | nil => rfl
  | cons a as ih =>
    obtain ⟨cases, isDefault, d⟩ := a
    rw [emitArms]
    cases hv : d.isVoid with
    | true => simp [run_bind, run_map, run_pure, ih, members, hv]
    | false => simp [run_bind, run_map, ih, members, hv]

namespace Generation

variable {g g' : Generation}

/-- a generation ends with the definition's own code; a program is skipped -/
theorem appends_own (t : Table) (g : Generation) : Appends (g.ready t) (g.finish t) (g.own t).toList := by
  obtain ⟨d, name, s⟩ := g
  unfold ready upTo finish own
  rw [List.take_length]
  cases d with
  | const id value =>
    rw [Definition.emitAs]
    exact appends_push rfl s
  | typedef e =>
    rw [Definition.emitAs, run_bind, typeAs_fst]
    exact appends_push rfl _
  | struct id fields =>
    rw [Definition.emitAs, run_bind, emitFields_fst, emitFields_snd]
    exact appends_push rfl _
  | enum id tags =>
    rw [Definition.emitAs]
    exact appends_push rfl s
  | union id tagId tagType arms hasDefault =>
    rw [Definition.emitAs, run_bind, emitArms_fst, emitArms_snd]
    exact appends_push rfl _
  | program p =>
    rw [Definition.emitAs]
    exact appends_report rfl s

theorem upTo_succ {k : Nat} {m : Decl} (hm : g.definition.values[k]? = some m) :
    g.upTo t (k + 1) = (m.typeAs t (g.definition.innerName g.name m.id) (g.upTo t k)).2 := by
  obtain ⟨hk, rfl⟩ := List.getElem?_eq_some_iff.1 hm
  rw [upTo, List.take_succ_eq_append_getElem hk, List.foldl_append]
  rfl

theorem upTo_of_length_le {k : Nat} (hk : g.definition.values.length ≤ k) : g.upTo t k = g.ready t := by
  rw [ready, upTo, upTo, List.take_of_length_le hk, List.take_length]

end Generation

/-- the type of a declaration adds containers, and what the generation of the type declared in it makes -/
def Decl.Fills (t : Table) (m : Decl) : Prop :=
  ∀ (name : String) (s : Emission), ∃ new, Appends s (m.typeAs t name s).2 new ∧
    ∀ f ∈ new, f.isContainer = true ∨ ∃ g, m.generation? name s = some g ∧ g.Makes t f

/-- a generation adds containers, and what the generations that it asks for make -/
theorem Generation.appends_upTo_of_fills {g : Generation} (hvalues : ∀ m ∈ g.definition.values, m.Fills t) (k : Nat) :
    ∃ new, Appends g.start (g.upTo t k) new ∧
      ∀ f ∈ new, f.isContainer = true ∨ ∃ g', g.Asks t g' ∧ g'.Makes t f := by
  induction k with
  | zero => exact ⟨[], .of_eq rfl rfl, List.forall_mem_nil _⟩
  | succ k ih =>
    cases hm : g.definition.values[k]? with
    | none =>
      have hk := List.getElem?_eq_none_iff.1 hm
      rwa [upTo_of_length_le (Nat.le_succ_of_le hk), ← upTo_of_length_le hk]
    | some m =>
      obtain ⟨new, hnew, hmade⟩ := ih
      obtain ⟨new', hnew', hmade'⟩ := hvalues m (List.mem_of_getElem? hm) _ (g.upTo t k)
      refine ⟨new ++ new', upTo_succ hm ▸ hnew.trans hnew', List.forall_mem_append.2 ⟨hmade, fun f hf => ?_⟩⟩
      refine (hmade' f hf).imp_right ?_
      rintro ⟨g', hg', hmakes⟩
      exact ⟨g', ⟨k, m, hm, hg'⟩, hmakes⟩

theorem Decl.fills (t : Table) (m : Decl) : m.Fills t := by
  induction m using Decl.induction with
  | h m ih =>
    intro name s
    obtain ⟨s₁, htype, ⟨-, hs⟩ | ⟨g, hg, rfl⟩⟩ := typeAs_cases t name m s
    all_goals rw [htype]
    · obtain ⟨new, hnew, hcontainers⟩ := typeOf_appends t m.qualifier (m.baseName name) m.bound s₁
      exact ⟨new, hs.trans hnew, fun f hf => .inl (hcontainers f hf)⟩
    · obtain ⟨b, hb, hbody⟩ := eq_of_generation? hg
      have hvalues : ∀ m ∈ g.definition.values, m.Fills t := by
        rw [hbody]
        exact ih b hb
      obtain ⟨new, hnew, hmade⟩ := Generation.appends_upTo_of_fills hvalues g.definition.values.length
      obtain ⟨new', hnew', hcontainers⟩ :=
        typeOf_appends t m.qualifier (m.baseName name) m.bound (g.finish t)
      refine ⟨_, (((appends_start hg).trans hnew).trans (g.appends_own t)).trans hnew', ?_⟩
      rw [List.nil_append, List.forall_mem_append, List.forall_mem_append]
      refine ⟨⟨fun f hf => (hmade f hf).imp_right ?_, fun f hf => .inr ⟨g, hg, g, .refl, ?_⟩⟩,
        fun f hf => .inl (hcontainers f hf)⟩
      · rintro ⟨g', hasks, g'', hsteps, hown⟩
        exact ⟨g, hg, g'', .head hasks hsteps, hown⟩
      · exact Option.mem_toList.1 hf

namespace Generation

variable {g g' : Generation}

/-- what is generated in the meantime: containers, and what was asked for at any depth -/
theorem appends_ready (t : Table) (g : Generation) : Appends g.start (g.ready t) (g.inner t) ∧
    ∀ f ∈ g.inner t, f.isContainer = true ∨ ∃ g', Relation.TransGen (Asks t) g g' ∧ g'.own t = some f := by
  obtain ⟨new, hnew, hmade⟩ :=
    appends_upTo_of_fills (fun m _ => m.fills t) g.definition.values.length
  have hinner : g.inner t = new := by
    rw [inner, ready, hnew.fragments, ← Array.length_toList, List.drop_left]
  rw [hinner]
  refine ⟨hnew, fun f hf => (hmade f hf).imp_right ?_⟩
  rintro ⟨g', hasks, g'', hsteps, hown⟩
  exact ⟨g'', .head' hasks hsteps, hown⟩

theorem appends_finish (t : Table) (g : Generation) :
    Appends g.start (g.finish t) (g.inner t ++ (g.own t).toList) :=
  (g.appends_ready t).1.trans (g.appends_own t)

theorem upTo_precedes_succ (t : Table) (g : Generation) (k : Nat) : Precedes (g.upTo t k) (g.upTo t (k + 1)) := by
  cases hm : g.definition.values[k]? with
  | none =>
    have hk := List.getElem?_eq_none_iff.1 hm
    rw [upTo_of_length_le hk, upTo_of_length_le (Nat.le_succ_of_le hk)]
    exact .refl _
  | some m =>
    obtain ⟨new, hnew, -⟩ := m.fills t (g.definition.innerName g.name m.id) (g.upTo t k)
    rw [upTo_succ hm]
    exact hnew.precedes

theorem upTo_precedes {j k : Nat} (h : j ≤ k) : Precedes (g.upTo t j) (g.upTo t k) := by
  induction h with
  | refl => exact .refl _
  | step _ ih => exact ih.trans (g.upTo_precedes_succ t _)

/-- a generation that is asked for begins after the one that asks, and ends before its own code -/
theorem Asks.precedes (h : g.Asks t g') : Precedes g.start g'.start ∧ Precedes (g'.finish t) (g.ready t) := by
  obtain ⟨k, m, hm, hg'⟩ := h
  have hk := (List.getElem?_eq_some_iff.1 hm).1
  refine ⟨(upTo_precedes (Nat.zero_le k)).trans (appends_start hg').precedes, ?_⟩
  obtain ⟨s₁, htype, ⟨hnone, -⟩ | ⟨g₁, hg₁, rfl⟩⟩ :=
    typeAs_cases t (g.definition.innerName g.name m.id) m (g.upTo t k)
  · rw [hnone] at hg'
    cases hg'
  · obtain rfl : g₁ = g' := Option.some.inj (hg₁.symm.trans hg')
    obtain ⟨new, hnew, -⟩ := typeOf_appends t m.qualifier (m.baseName (g.definition.innerName g.name m.id))
      m.bound (g₁.finish t)
    rw [← htype, ← upTo_succ hm] at hnew
    exact hnew.precedes.trans (upTo_precedes hk)

/-- the same at any depth -/
theorem precedes_of_transGen (h : Relation.TransGen (Asks t) g g') :
    Precedes g.start g'.start ∧ Precedes (g'.finish t) (g.ready t) := by
  induction h with
  | single h => exact h.precedes
  | @tail g₁ g₂ _ h ih =>
    exact ⟨ih.1.trans h.precedes.1, (h.precedes.2.trans (g₁.appends_own t).precedes).trans ih.2⟩

/-- types that are declared inline have a body, and so code of their own -/
theorem Asks.isSome_own (h : g.Asks t g') (hg : g.definition.grammaticalBody = true) :
    (g'.own t).isSome = true ∧ g'.definition.grammaticalBody = true := by
  obtain ⟨k, m, hm, hg'⟩ := h
  obtain ⟨b, hb, rfl⟩ := eq_of_generation? hg'
  have hvalue := Definition.grammatical_of_mem_values hg (List.mem_of_getElem? hm)
  have hown := exists_codeAs_of_isBody t (g.definition.innerName g.name m.id) (Decl.isBody_of_body hvalue hb)
  exact ⟨Option.isSome_iff_exists.2 hown, Decl.grammaticalBody_of_body hvalue hb⟩

theorem isSome_own_of_transGen (h : Relation.TransGen (Asks t) g g') (hg : g.definition.grammaticalBody = true) :
    (g'.own t).isSome = true ∧ g'.definition.grammaticalBody = true := by
  induction h with
  | single h => exact h.isSome_own hg
  | tail _ h ih => exact h.isSome_own ih.2

end Generation

/-! ## Tables -/

/-- the generations of definitions one after another -/
def Table.generationsFrom (t : Table) (s : Emission) : List Definition → List Generation
  | [] => []
  | d :: ds => ⟨d, d.id, s⟩ :: t.generationsFrom (d.emit t s).2 ds

/-- the generations of the top level, in order -/
def Table.generations (t : Table) : List Generation := t.generationsFrom {} t.definitions.toList

/-- what is generated at the top level, from `s` on -/
def Table.emitFrom (t : Table) (s : Emission) (ds : List Definition) : Emission :=
  ((ds.forM fun d => d.emit t : StateM Emission Unit) s).2

section

variable {s : Emission} {ds : List Definition} {g g' : Generation}

theorem map_definition_generationsFrom (t : Table) (s : Emission) (ds : List Definition) :
    (t.generationsFrom s ds).map Generation.definition = ds := by
  induction ds generalizing s with
  | nil => rfl
  | cons d ds ih => rw [Table.generationsFrom, List.map_cons, ih]

theorem name_of_mem_generationsFrom (hg : g ∈ t.generationsFrom s ds) : g.name = g.definition.id := by
  induction ds generalizing s with
  | nil => cases hg
  | cons d ds ih =>
    rcases List.mem_cons.1 hg with rfl | hg
    · rfl
    · exact ih hg

/-- the top level is generated in order, each definition behind what it asks for -/
theorem emitFrom_appends (t : Table) (s : Emission) (ds : List Definition) : Appends s (t.emitFrom s ds)
    ((t.generationsFrom s ds).flatMap fun g => g.inner t ++ (g.own t).toList) := by
  induction ds generalizing s with
  | nil => exact .of_eq rfl rfl
  | cons d ds ih => exact (Generation.appends_finish t ⟨d, d.id, s⟩).trans (ih _)

theorem finish_precedes_of_mem (hg : g ∈ t.generationsFrom s ds) : Precedes (g.finish t) (t.emitFrom s ds) := by
  induction ds generalizing s with
  | nil => cases hg
  | cons d ds ih =>
    rcases List.mem_cons.1 hg with rfl | hg
    · exact (emitFrom_appends t _ ds).precedes
    · exact ih hg

/-- what is generated besides the top level goes by claimed names -/
theorem generationsFrom_generates (hds : ∀ d ∈ ds, d.grammatical = true) (s : Emission) :
    ∃ new, Generates t (ds.flatMap fun d => d.demandsAs t d.id ++ [.declared d]) s.names (t.emitFrom s ds).names new ∧
      (new.filter Product.claimed).map Product.fragment =
        (t.generationsFrom s ds).flatMap (Generation.inner t) := by
  induction ds generalizing s with
  | nil => exact ⟨[], .nil _, rfl⟩
  | cons d ds ih =>
    rw [List.forall_mem_cons] at hds
    have hbody := (Bool.and_eq_true_iff.1 hds.1).2
    obtain ⟨s₁, ⟨new, hnew, hgenerates⟩, hfragments, hnames⟩ := emitAs_answers t d.id d hbody s
    obtain ⟨new', hgenerates', hinner'⟩ := ih hds.2 (d.emit t s).2
    rw [← hnames] at hgenerates
    refine ⟨new ++ (Demand.product? t (.declared d)).toList ++ new', ?_, ?_⟩
    · exact (hgenerates.append (.declared d _)).append hgenerates'
    · have hclaimed : new.filter Product.claimed = new := by
        refine List.filter_eq_self.2 fun p hp => ?_
        obtain ⟨e, he, hproduct⟩ := List.mem_filterMap.1 (hgenerates.sublist.subset hp)
        exact claimed_of_inner (inner_of_mem_demandsAs t d.id hbody e he) hproduct
      have hdeclared : (Demand.product? t (.declared d)).toList.filter Product.claimed = [] := by
        cases h : d.codeAs t d.id <;> simp [Demand.product?, h]
      have hinner : Generation.inner t ⟨d, d.id, s⟩ = new.map Product.fragment := by
        have hfinish := (Generation.appends_finish t ⟨d, d.id, s⟩).fragments
        have heq := hfinish.symm.trans (hfragments.trans (congrArg (· ++ _) hnew))
        rw [List.append_assoc] at heq
        exact List.append_cancel_right (List.append_cancel_left heq)
      rw [List.filter_append, List.filter_append, hclaimed, hdeclared, List.append_nil, List.map_append, hinner',
        Table.generationsFrom, List.flatMap_cons, hinner]

theorem mem_definitions_of_mem_generations (hg : g ∈ t.generations) : g.definition ∈ t.definitions := by
  rw [← Array.mem_toList_iff, ← map_definition_generationsFrom t {} t.definitions.toList]
  exact List.mem_map_of_mem hg

/-- what is generated for a table is a container, or the own code of a generation that was asked for -/
theorem exists_makes {f : Fragment} (hf : f ∈ t.emission.fragments) :
    f.isContainer = true ∨ ∃ g ∈ t.generations, g.Makes t f := by
  have hall := (emitFrom_appends t {} t.definitions.toList).fragments
  rw [show ({} : Emission).fragments.toList = [] from rfl, List.nil_append] at hall
  rw [← Array.mem_toList_iff, show t.emission = t.emitFrom {} t.definitions.toList from rfl, hall] at hf
  obtain ⟨g, hg, hf⟩ := List.mem_flatMap.1 hf
  rcases List.mem_append.1 hf with hf | hf
  · refine ((g.appends_ready t).2 f hf).imp_right ?_
    rintro ⟨g', hsteps, hown⟩
    exact ⟨g, hg, g', hsteps.to_reflTransGen, hown⟩
  · exact .inr ⟨g, hg, g, .refl, Option.mem_toList.1 hf⟩

end

/-- the fragments of a generation lie together, its own code last, in what is generated for the table; each type that is
declared in the definition and generated in its course is complete before -/
structure Generation.InOrder (t : Table) (g : Generation) : Prop where
  /-- the fragments that were there, those that are generated in the meantime, and the definition's own -/
  own_last : (g.finish t).fragments.toList = g.start.fragments.toList ++ g.inner t ++ (g.own t).toList
  kept : (g.finish t).fragments.toList <+: t.emission.fragments.toList
  nested : ∀ g', Relation.TransGen (Asks t) g g' → (g'.own t).isSome = true ∧
    g.start.fragments.toList <+: g'.start.fragments.toList ∧
    (g'.finish t).fragments.toList <+: g.start.fragments.toList ++ g.inner t
  /-- nothing else is generated in the meantime but containers -/
  made : ∀ f ∈ g.inner t, f.isContainer = true ∨ ∃ g', Relation.TransGen (Asks t) g g' ∧ g'.own t = some f

/-- generations that the table asks for, at any depth, are in order -/
theorem inOrder_of_reflTransGen (hd : ∀ d ∈ t.definitions, d.grammatical = true) {g g' : Generation}
    (hg : g ∈ t.generations) (h : Relation.ReflTransGen (Generation.Asks t) g g') : g'.InOrder t := by
  have hgrammatical := (Bool.and_eq_true_iff.1 (hd _ (mem_definitions_of_mem_generations hg))).2
  have hready := (g'.appends_ready t).1.fragments
  have hfinish : Precedes (g'.finish t) t.emission ∧ g'.definition.grammaticalBody = true := by
    have hlast : Precedes (g.finish t) t.emission := finish_precedes_of_mem hg
    rcases Relation.reflTransGen_iff_eq_or_transGen.1 h with rfl | h
    · exact ⟨hlast, hgrammatical⟩
    · have hended := (Generation.precedes_of_transGen h).2.trans (g.appends_own t).precedes
      exact ⟨hended.trans hlast, (Generation.isSome_own_of_transGen h hgrammatical).2⟩
  refine ⟨?_, hfinish.1.isPrefix, fun g'' h'' => ?_, (g'.appends_ready t).2⟩
  · rw [(g'.appends_finish t).fragments, List.append_assoc]
  · obtain ⟨hstart, hended⟩ := Generation.precedes_of_transGen h''
    rw [← hready]
    exact ⟨(Generation.isSome_own_of_transGen h'' hfinish.2).1, hstart.isPrefix, hended.isPrefix⟩

/-- **Definitions are generated in order, and what is declared in them before them.** For a reachable table:
- what is generated is made of the top-level definitions in order of discovery, each with what is generated in its
  course and then one fragment of its own, or none for a program;
- every generation, of a definition or of a type declared in one at any depth, adds its fragments together and its own
  last, behind all that was there and behind the types that are declared in it;
- the claimed names are the names of the fragments that are no definition's own at the top level, one for each;
- the events that name fragments name these, in this order. -/
theorem emission_ordered {t : Table} (ht : t.Reachable) :
    (t.emission.fragments.toList = (t.generations.flatMap fun g => g.inner t ++ (g.own t).toList) ∧
      t.generations.map Generation.definition = t.definitions.toList ∧
      ∀ g ∈ t.generations, (g.own t = none ↔ g.definition.kind = "program") ∧
        ∀ f, g.own t = some f → f.event = .generated g.definition.kind g.definition.id) ∧
    (∀ g ∈ t.generations, ∀ g', Relation.ReflTransGen (Generation.Asks t) g g' → g'.InOrder t) ∧
    (((t.generations.flatMap (Generation.inner t)).map Fragment.name).Nodup ∧
      ∀ x, x ∈ t.emission.names ↔ x ∈ (t.generations.flatMap (Generation.inner t)).map Fragment.name) ∧
    t.emission.fragmentEvents = t.emission.fragments.toList.map Fragment.event := by
  have hd := ht.sound.grammatical
  have hall : Appends {} t.emission (t.generations.flatMap fun g => g.inner t ++ (g.own t).toList) :=
    emitFrom_appends t {} t.definitions.toList
  have hds : ∀ d ∈ t.definitions.toList, d.grammatical = true := fun d hdef => hd d (Array.mem_toList_iff.1 hdef)
  obtain ⟨new, hgenerates, hinner⟩ := generationsFrom_generates (t := t) hds {}
  have hnames : claimedNames new = (t.generations.flatMap (Generation.inner t)).map Fragment.name := by
    rw [Table.generations, ← hinner, List.map_map]
    rfl
  refine ⟨⟨hall.fragments, map_definition_generationsFrom t {} _, fun g hg => ⟨codeAs_eq_none_iff, fun f hf => ?_⟩⟩,
    fun g hg g' h => inOrder_of_reflTransGen hd hg h, ⟨hnames ▸ hgenerates.nodup, fun x => ?_⟩, ?_⟩
  · rw [event_of_codeAs hf, name_of_mem_generationsFrom hg]
  · rw [← hnames]
    exact (hgenerates.mem_names x).trans (or_iff_right Std.HashSet.not_mem_empty)
  · rw [hall.events, hall.fragments]
    rfl

/-- the struct inside is generated in the course of the one around it -/
theorem emission_ordered_sample : (Table.empty.extend nestedStruct).Reachable ∧
    ∃ g ∈ (Table.empty.extend nestedStruct).generations, ∃ g', g.Asks (Table.empty.extend nestedStruct) g' ∧
      g.InOrder (Table.empty.extend nestedStruct) ∧ g'.InOrder (Table.empty.extend nestedStruct) := by
  obtain ⟨-, hinOrder, -, -⟩ := emission_ordered nestedStruct_reachable
  have hg : ⟨nestedStruct, "S", {}⟩ ∈ (Table.empty.extend nestedStruct).generations := by
    simp [Table.generations, Table.extend, Table.empty, Table.generationsFrom, nestedStruct, Definition.id]
  have hasks : Generation.Asks (Table.empty.extend nestedStruct) ⟨nestedStruct, "S", {}⟩
      ⟨.struct "" [⟨"x", "int", .scalar, "", none⟩], memberTypeName "S" "a", (claim (memberTypeName "S" "a") {}).2⟩ := by
    refine ⟨0, _, rfl, ?_⟩
    simp [Decl.generation?, Generation.upTo, nestedStruct, Definition.innerName]
  exact ⟨nestedStruct_reachable, _, hg, _, hasks, hinOrder _ hg _ .refl, hinOrder _ hg _ (.single hasks)⟩

end Xdr
