/-
The generation remembers what it made.

The type of a declaration depends on the table alone. What a declaration adds is decided by the claimed names: the type
that is declared in it when its name is free, and then the container that it asks for when that one's name is. Names are
never released, so who asks a second time gets the same type and adds nothing, whatever was asked for in between.
- `typeAs_snd`, `typeOf_gains`: what a declaration adds, in two parts.
- `typeAs_grows`, `asks_grow`: what one declaration, and any number of demands, take away from no state.
- `generation_remembers`: a declaration or a container that is asked for again, in every state.
-/
import Xdr.Proofs.Emission.Order

namespace Xdr

open Code Emission

variable {t : Table} {s s₁ s' : Emission}

/-! ## What is added to a state -/

/-- from `s` to `s'` exactly these names, fragments and events are added -/
structure Emission.Gains (s s' : Emission) (names : List String) (new : List Fragment) (events : List Event) :
    Prop where
  names : ∀ x, x ∈ s'.names ↔ x ∈ s.names ∨ x ∈ names
  fragments : s'.fragments.toList = s.fragments.toList ++ new
  events : s'.events.toList = s.events.toList ++ events

namespace Emission.Gains

variable {names names' : List String} {new new' : List Fragment} {events events' : List Event}

theorem trans (h : Gains s s₁ names new events) (h' : Gains s₁ s' names' new' events') :
    Gains s s' (names ++ names') (new ++ new') (events ++ events') where
  names x := by rw [h'.names, h.names, List.mem_append, or_assoc]
  fragments := by rw [h'.fragments, h.fragments, List.append_assoc]
  events := by rw [h'.events, h.events, List.append_assoc]

/-- names that were there are not added -/
theorem of_mem (h : Gains s s' names new events) (hnames : ∀ x ∈ names, x ∈ s.names) : Gains s s' [] new events :=
  ⟨fun x => by simpa using (h.names x).trans (or_iff_left_of_imp (hnames x)), h.fragments, h.events⟩

end Emission.Gains

theorem claim_gains (name : String) (s : Emission) : Gains s (claim name s).2 [name] [] [] :=
  ⟨fun x => by simp [run_claim, or_comm, eq_comm (a := x)], (List.append_nil _).symm, (List.append_nil _).symm⟩

/-- what is added for a container: its code, if its name is free -/
def Container.added (t : Table) (s : Emission) (c : Container) : List Fragment :=
  if c.name t ∈ s.names then [] else [c.code t]

/-- the warning of a bound that is passed on as it is written -/
def Bound.warnings : Bound → List Event
  | .verbatim e => [.looseBound e]
  | _ => []

namespace Table

/-- what a declaration of a base type adds -/
def added (t : Table) (s : Emission) (q : Qualifier) (base bound : String) : List Fragment :=
  (t.container? q base bound).toList.flatMap (Container.added t s)

/-- the warnings of a declaration of a base type -/
def warnings (t : Table) (q : Qualifier) (base bound : String) : List Event :=
  if isBounded q base then (t.bound bound).warnings else []

end Table

theorem materialize_gains (t : Table) (c : Container) (s : Emission) :
    Gains s (t.materialize c.qualifier c.base c.bound s).2 [c.name t] (c.added t s)
      ((c.added t s).map Fragment.event) := by
  have hclaim := claim_gains (c.name t) s
  unfold Table.materialize Container.added
  rw [run_bind]
  by_cases h : c.name t ∈ s.names
  · rw [if_pos h, show (claim (t.wrapperName c.base c.bound) s).1 = false from claim_taken h]
    exact hclaim
  · rw [if_neg h, show (claim (t.wrapperName c.base c.bound) s).1 = true from claim_free h]
    exact ⟨hclaim.names, Array.toList_push, Array.toList_push⟩

theorem boundOf_gains (t : Table) {q : Qualifier} {base : String} (h : Table.isBounded q base = true) (bound : String)
    (s : Emission) : Gains s (t.boundOf bound s).2 [] [] (t.warnings q base bound) := by
  rw [Table.boundOf, Table.warnings, if_pos h]
  cases t.bound bound with
  | verbatim e => exact ⟨by simp [run_bind, run_report, run_pure], (List.append_nil _).symm, Array.toList_push⟩
  | _ => exact ⟨by simp [run_pure], (List.append_nil _).symm, (List.append_nil _).symm⟩

/-- a declaration of a base type: its warnings, then the container that it asks for -/
theorem typeOf_gains (t : Table) (q : Qualifier) (base bound : String) (s : Emission) :
    Gains s (t.typeOf q base bound s).2 ((t.container? q base bound).toList.map (Container.name t))
      (t.added s q base bound) (t.warnings q base bound ++ (t.added s q base bound).map Fragment.event) := by
  unfold Table.typeOf Table.added Table.container?
  split_ifs with h
  · have hbound := boundOf_gains t h bound s
    rw [run_bind, boundOf_fst]
    cases (t.bound bound).text? with
    | none => simpa [run_pure] using hbound
    | some b =>
      have hnames : (t.boundOf bound s).2.names = s.names := (boundOf_snd t bound s).2
      have hcontainer := hbound.trans (materialize_gains t ⟨q, base, b⟩ (t.boundOf bound s).2)
      simpa [Container.added, hnames] using hcontainer
  · have hnone : t.warnings q base bound = [] := by rw [Table.warnings, if_neg h]
    rw [hnone]
    exact ⟨by simp [run_pure], by simp [run_pure], by simp [run_pure]⟩

/-- the state when the type that is declared in a declaration is there, and only its container is left -/
def Decl.inlined (t : Table) (name : String) (s : Emission) (d : Decl) : Emission :=
  match d.body with
  | none => s
  | some b => if name ∈ s.names then (claim name s).2 else (b.emitAs t name (claim name s).2).2

theorem typeAs_snd (t : Table) (name : String) (d : Decl) (s : Emission) :
    (d.typeAs t name s).2 = (t.typeOf d.qualifier (d.baseName name) d.bound (d.inlined t name s)).2 := by
  obtain ⟨id, type, q, bound, body⟩ := d
  cases body with
  | none =>
    rw [Decl.typeAs]
    rfl
  | some b =>
    rw [Decl.typeAs, run_bind]
    by_cases h : name ∈ s.names
    · rw [claim_taken h]
      simp [Decl.inlined, Decl.baseName, h]
    · rw [claim_free h]
      simp [Decl.inlined, Decl.baseName, h, run_bind]

/-! ## Growth -/

/-- the names of the containers among fragments -/
def containerNames (fs : List Fragment) : List String := (fs.filter Fragment.isContainer).map Fragment.name

theorem containerNames_append (fs fs' : List Fragment) :
    containerNames (fs ++ fs') = containerNames fs ++ containerNames fs' := by
  rw [containerNames, List.filter_append, List.map_append]
  rfl

namespace Emission

/-- from `s` to `s'` nothing is taken away, and containers are added under names that were free, each once -/
structure Grows (s s' : Emission) : Prop where
  names : ∀ x ∈ s.names, x ∈ s'.names
  fragments : ∃ new, s'.fragments.toList = s.fragments.toList ++ new ∧ (containerNames new).Nodup ∧
    ∀ x ∈ containerNames new, x ∉ s.names ∧ x ∈ s'.names

theorem Grows.of_eq (hf : s'.fragments = s.fragments) (hn : ∀ x ∈ s.names, x ∈ s'.names) : Grows s s' :=
  ⟨hn, [], by simp [hf], List.nodup_nil, List.forall_mem_nil _⟩

theorem Grows.refl (s : Emission) : Grows s s := .of_eq rfl fun _ => id

theorem Grows.trans (h : Grows s s₁) (h' : Grows s₁ s') : Grows s s' := by
  obtain ⟨hn, new, hf, hnodup, hfree⟩ := h
  obtain ⟨hn', new', hf', hnodup', hfree'⟩ := h'
  refine ⟨fun x hx => hn' x (hn x hx), new ++ new', by rw [hf', hf, List.append_assoc], ?_⟩
  rw [containerNames_append, List.nodup_append', List.forall_mem_append]
  refine ⟨⟨hnodup, hnodup', fun x hx hx' => (hfree' x hx').1 (hfree x hx).2⟩, fun x hx => ?_, fun x hx => ?_⟩
  · exact ⟨(hfree x hx).1, hn' x (hfree x hx).2⟩
  · exact ⟨fun hold => (hfree' x hx).1 (hn x hold), (hfree' x hx).2⟩

theorem Grows.of_push {f : Fragment} (hf : s'.fragments = s.fragments.push f) (hn : s'.names = s.names)
    (hown : f.isContainer = false) : Grows s s' := by
  have hnone : containerNames [f] = [] := by simp [containerNames, hown]
  refine ⟨fun x hx => hn ▸ hx, [f], by simp [hf], ?_⟩
  rw [hnone]
  exact ⟨List.nodup_nil, List.forall_mem_nil _⟩

theorem grows_claim (name : String) (s : Emission) : Grows s (claim name s).2 :=
  .of_eq rfl fun x hx => by simp [run_claim, hx]

end Emission

/-- what one container adds, if one is asked for at all -/
theorem Emission.Gains.grows (c? : Option Container) {events : List Event}
    (h : Gains s s' (c?.toList.map (Container.name t)) (c?.toList.flatMap (Container.added t s)) events) :
    Grows s s' := by
  refine ⟨fun x hx => (h.names x).2 (.inl hx), _, h.fragments, ?_⟩
  cases c? with
  | none => exact ⟨List.nodup_nil, List.forall_mem_nil _⟩
  | some c =>
    have hclaimed : c.name t ∈ s'.names := (h.names _).2 (.inr (List.mem_singleton_self _))
    rw [Option.toList_some, List.flatMap_singleton, Container.added]
    split_ifs with hname
    · exact ⟨List.nodup_nil, List.forall_mem_nil _⟩
    · exact ⟨List.nodup_singleton _, List.forall_mem_singleton.2 ⟨hname, hclaimed⟩⟩

theorem materialize_grows (t : Table) (c : Container) (s : Emission) :
    Grows s (t.materialize c.qualifier c.base c.bound s).2 := by
  apply Gains.grows (t := t) (some c)
  rw [Option.toList_some, List.flatMap_singleton]
  exact materialize_gains t c s

theorem typeOf_grows (t : Table) (q : Qualifier) (base bound : String) (s : Emission) :
    Grows s (t.typeOf q base bound s).2 :=
  (typeOf_gains t q base bound s).grows _

mutual

theorem emitAs_grows (t : Table) (name : String) (d : Definition) (s : Emission) :
    Grows s (d.emitAs t name s).2 := by
  match d with
  | .const id value =>
    rw [Definition.emitAs]
    exact .of_push rfl rfl rfl
  | .typedef e =>
    rw [Definition.emitAs, run_bind]
    exact (typeAs_grows t (underscored name) e s).trans (.of_push rfl rfl rfl)
  | .struct id fields =>
    rw [Definition.emitAs, run_bind]
    exact (emitFields_grows t name fields s).trans (.of_push rfl rfl rfl)
  | .enum id tags =>
    rw [Definition.emitAs]
    exact .of_push rfl rfl rfl
  | .union id tagId tagType arms hasDefault =>
    rw [Definition.emitAs, run_bind]
    exact (emitArms_grows t name (t.enumType? tagType) arms s).trans (.of_push rfl rfl rfl)
  | .program p =>
    rw [Definition.emitAs]
    exact .of_eq rfl fun _ => id

theorem typeAs_grows (t : Table) (name : String) (d : Decl) (s : Emission) : Grows s (d.typeAs t name s).2 := by
  match d with
  | ⟨id, type, q, bound, none⟩ =>
    rw [Decl.typeAs]
    exact typeOf_grows t q type bound s
  | ⟨id, type, q, bound, some b⟩ =>
    rw [Decl.typeAs, run_bind]
    cases (claim name s).1 with
    | true =>
      exact (grows_claim name s).trans ((emitAs_grows t name b _).trans (typeOf_grows t q name bound _))
    | false => exact (grows_claim name s).trans (typeOf_grows t q name bound _)

theorem emitFields_grows (t : Table) (parent : String) (fields : List Decl) (s : Emission) :
    Grows s (emitFields t parent fields s).2 := by
  match fields with
  | [] => exact .refl s
  | d :: ds =>
    rw [emitFields, run_bind]
    exact (typeAs_grows t (memberTypeName parent d.id) d s).trans (emitFields_grows t parent ds _)

theorem emitArms_grows (t : Table) (parent : String) (enum : Option String) (arms : List Arm) (s : Emission) :
    Grows s (emitArms t parent enum arms s).2 := by
  match arms with
  | [] => exact .refl s
  | ⟨cases, isDefault, d⟩ :: as =>
    rw [emitArms]
    cases d.isVoid with
    | true => exact emitArms_grows t parent enum as s
    | false => exact (typeAs_grows t (memberTypeName parent d.id) d s).trans (emitArms_grows t parent enum as _)

end

/-! ## Demands one after another -/

/-- one use of the generation from outside -/
inductive Emission.Ask where
  /-- the type of a declaration in a definition -/
  | type (parent : Definition) (d : Decl)
  | container (c : Container)
  | definition (d : Definition)

/-- the state after a use -/
def Table.ask (t : Table) (s : Emission) : Ask → Emission
  | .type parent d => (d.typeAs t (parent.inlineName d.id) s).2
  | .container c => (t.materialize c.qualifier c.base c.bound s).2
  | .definition d => (d.emit t s).2

/-- the state after some uses -/
def Table.asks (t : Table) (s : Emission) (as : List Ask) : Emission := as.foldl t.ask s

theorem ask_grows (t : Table) (s : Emission) (a : Ask) : Grows s (t.ask s a) := by
  cases a with
  | type parent d => exact typeAs_grows t _ d s
  | container c => exact materialize_grows t c s
  | definition d => exact emitAs_grows t d.id d s

theorem asks_grow (t : Table) (s : Emission) (as : List Ask) : Grows s (t.asks s as) := by
  induction as generalizing s with
  | nil => exact .refl s
  | cons a as ih => exact (ask_grows t s a).trans (ih (t.ask s a))

/-! ## The second time -/

/-- the names that a declaration asks for itself are claimed -/
structure Decl.Settled (t : Table) (name : String) (d : Decl) (s : Emission) : Prop where
  body : d.body.isSome = true → name ∈ s.names
  container : ∀ c, d.container? t name = some c → c.name t ∈ s.names

theorem Decl.Settled.grows {name : String} {d : Decl} (h : d.Settled t name s) (hgrows : Grows s s') :
    d.Settled t name s' :=
  ⟨fun hbody => hgrows.names _ (h.body hbody), fun c hc => hgrows.names _ (h.container c hc)⟩

theorem inlined_grows (t : Table) (name : String) (d : Decl) (s : Emission) : Grows s (d.inlined t name s) := by
  unfold Decl.inlined
  split
  · exact .refl s
  · split_ifs
    · exact grows_claim name s
    · exact (grows_claim name s).trans (emitAs_grows t name _ _)

theorem mem_names_inlined (t : Table) (name : String) {d : Decl} (h : d.body.isSome = true) (s : Emission) :
    name ∈ (d.inlined t name s).names := by
  obtain ⟨b, hb⟩ := Option.isSome_iff_exists.1 h
  have hclaim : name ∈ (claim name s).2.names := by simp [run_claim]
  rw [Decl.inlined, hb]
  dsimp only
  split_ifs
  · exact hclaim
  · exact (emitAs_grows t name b _).names name hclaim

/-- a declaration claims the names that it asks for -/
theorem settled_typeAs (t : Table) (name : String) (d : Decl) (s : Emission) :
    d.Settled t name (d.typeAs t name s).2 := by
  rw [typeAs_snd]
  have h := typeOf_gains t d.qualifier (d.baseName name) d.bound (d.inlined t name s)
  refine ⟨fun hbody => (h.names name).2 (.inl (mem_names_inlined t name hbody s)), fun c hc => (h.names _).2 (.inr ?_)⟩
  rw [show t.container? d.qualifier (d.baseName name) d.bound = some c from hc]
  exact List.mem_singleton_self _

/-- where the names are claimed, a declaration adds its warnings only -/
theorem Decl.Settled.typeAs_gains {name : String} {d : Decl} (h : d.Settled t name s) :
    Gains s (d.typeAs t name s).2 [] [] (t.warnings d.qualifier (d.baseName name) d.bound) := by
  have hinlined : Gains s (d.inlined t name s) [] [] [] := by
    unfold Decl.inlined
    split
    · exact ⟨by simp, (List.append_nil _).symm, (List.append_nil _).symm⟩
    · next b hb =>
      have hname : name ∈ s.names := h.body (by simp [hb])
      rw [if_pos hname]
      exact (claim_gains name s).of_mem (List.forall_mem_singleton.2 hname)
  have hmem : ∀ x, x ∈ (d.inlined t name s).names ↔ x ∈ s.names := fun x => by simpa using hinlined.names x
  have htype := typeOf_gains t d.qualifier (d.baseName name) d.bound (d.inlined t name s)
  have hcontainer : ∀ c ∈ (t.container? d.qualifier (d.baseName name) d.bound).toList,
      c.name t ∈ (d.inlined t name s).names := fun c hc => (hmem _).2 (h.container c (Option.mem_toList.1 hc))
  have hnone : t.added (d.inlined t name s) d.qualifier (d.baseName name) d.bound = [] :=
    List.flatMap_eq_nil_iff.2 fun c hc => if_pos (hcontainer c hc)
  rw [hnone, List.map_nil, List.append_nil] at htype
  rw [typeAs_snd]
  exact hinlined.trans (htype.of_mem (List.forall_mem_map.2 hcontainer))

/-- what a use of the generation answers does not depend on the state; the first time may add fragments, behind those that
are there, and the second time adds none and claims no name, whatever was asked for in between -/
structure Emission.Remembered (t : Table) (x : StateM Emission TypeExpr) : Prop where
  appends : ∀ s, s.fragments.toList <+: (x s).2.fragments.toList
  again : ∀ s as s', t.asks (x s).2 as = s' →
    (x s').1 = (x s).1 ∧ (x s').2.fragments = s'.fragments ∧ ∀ y, y ∈ (x s').2.names ↔ y ∈ s'.names

/-- a use that settles its names, names that stay settled, and nothing added where they are -/
theorem remembered_of_gains {x : StateM Emission TypeExpr} {type : TypeExpr} (settled : Emission → Prop)
    (htype : ∀ s, (x s).1 = type) (hgrows : ∀ s, Grows s (x s).2) (hsettled : ∀ s, settled (x s).2)
    (hkept : ∀ s s', settled s → Grows s s' → settled s')
    (hgains : ∀ s, settled s → ∃ events, Gains s (x s).2 [] [] events) : Remembered t x := by
  refine ⟨fun s => ?_, fun s as s' hs' => ?_⟩
  · obtain ⟨new, hnew, -⟩ := (hgrows s).fragments
    exact ⟨new, hnew.symm⟩
  · obtain ⟨events, hgains⟩ := hgains s' (hkept _ _ (hsettled s) (hs' ▸ asks_grow t (x s).2 as))
    refine ⟨(htype s').trans (htype s).symm, ?_, fun y => by simpa using hgains.names y⟩
    rw [← Array.toList_inj, hgains.fragments, List.append_nil]

/-- **The generation remembers what it made.** For every table, the type of a declaration in any definition, and the
container of any base type and bound: whatever the state is, they only add fragments behind those that are there; asked
for again, at once or after other types, containers and definitions, they have the same answer, add no fragment and claim
no name. -/
theorem generation_remembers (t : Table) :
    (∀ (parent : Definition) (d : Decl), Remembered t (d.typeAs t (parent.inlineName d.id))) ∧
    ∀ (q : Qualifier) (base bound : String), Remembered t (t.materialize q base bound) := by
  constructor
  · intro parent d
    exact remembered_of_gains (d.Settled t (parent.inlineName d.id)) (typeAs_fst t _ d) (typeAs_grows t _ d)
      (settled_typeAs t _ d) (fun s s' h hgrows => h.grows hgrows) fun s h => ⟨_, h.typeAs_gains⟩
  · intro q base bound
    have hgains := materialize_gains t ⟨q, base, bound⟩
    refine remembered_of_gains (fun s => t.wrapperName base bound ∈ s.names) (materialize_fst t q base bound)
      (materialize_grows t ⟨q, base, bound⟩) (fun s => ((hgains s).names _).2 (.inr (List.mem_singleton_self _)))
      (fun s s' h hgrows => hgrows.names _ h) fun s h => ?_
    have hnone : Container.added t s ⟨q, base, bound⟩ = [] := if_pos h
    have hagain := (hgains s).of_mem (List.forall_mem_singleton.2 h)
    rw [hnone] at hagain
    exact ⟨_, hagain⟩

end Xdr
