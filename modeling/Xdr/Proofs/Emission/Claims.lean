/-
The names that the generation claims.

A name is claimed once: for an inline type or for a container. Definitions of a schema are generated under their own
names, which are never claimed.
- `Generates.mem_names`, `Generates.nodup`: the claimed names are those of the fragments made for them, one for each.
- `Generates.sublist`, `Generates.declared_eq`: what is generated is a part of what is asked for, in order, and holds
  every definition of the top level.
- `Generates.complete`: where every inline type has a name of its own, every inline type that is asked for is generated.
- `Generates.eq_of_nodup`: where all names that are made are different, everything that is asked for is.
-/
import Mathlib.Data.List.Nodup
import Xdr.Proofs.Emission.Demand

namespace Xdr

open Code

variable {t : Table} {es es' : List Demand}

/-! ## Products -/

theorem name_of_codeAs {name : String} {d : Definition} {f : Fragment} (h : d.codeAs t name = some f) :
    f.name = name := by
  cases d <;> cases h <;> rfl

theorem isContainer_of_codeAs {name : String} {d : Definition} {f : Fragment} (h : d.codeAs t name = some f) :
    f.isContainer = false := by
  cases d <;> cases h <;> rfl

/-- the names that were claimed for products -/
def claimedNames (ps : List Product) : List String := (ps.filter Product.claimed).map Product.name

@[simp] theorem claimedNames_nil : claimedNames [] = [] := rfl

@[simp] theorem claimedNames_append (ps qs : List Product) :
    claimedNames (ps ++ qs) = claimedNames ps ++ claimedNames qs := by
  simp [claimedNames]

@[simp] theorem claimedNames_claimed (f : Fragment) : claimedNames [⟨true, f⟩] = [f.name] := rfl

@[simp] theorem claimedNames_declared (t : Table) (d : Definition) :
    claimedNames (Demand.product? t (.declared d)).toList = [] := by
  cases h : d.codeAs t d.id <;> simp [Demand.product?, h, claimedNames]

/-! ## Demands of a definition -/

theorem Decl.demandsAs_of_named {d : Decl} (hb : d.body = none) (t : Table) (name : String) :
    d.demandsAs t name = (d.container? t name).toList.map .container := by
  obtain ⟨id, type, q, bound, body⟩ := d
  obtain rfl : body = none := hb
  rw [demandsAs]
  rfl

theorem Decl.demandsAs_of_body {d : Decl} {b : Definition} (hb : d.body = some b) (t : Table) (name : String) :
    d.demandsAs t name = b.demandsAs t name ++ [.inline name b] ++ (d.container? t name).toList.map .container := by
  obtain ⟨id, type, q, bound, body⟩ := d
  obtain rfl : body = some b := hb
  rw [demandsAs]
  rfl

theorem Decl.isBody_of_body {d : Decl} {b : Definition} (h : d.grammatical = true) (hb : d.body = some b) :
    b.isBody = true := by
  obtain ⟨id, type, q, bound, body⟩ := d
  obtain rfl : body = some b := hb
  simp only [grammatical, Bool.and_eq_true] at h
  exact h.1.1.2

/-- a container of strings is one string, any other one is a vector -/
def Container.Proper (c : Container) : Prop := c.qualifier = if c.base = Primitive.string.idlName then .scalar else .vec

/-- what a definition asks for: types with a body, under names that are marked, and containers -/
def Demand.Inner : Demand → Prop
  | .inline name b => name.startsWith "_" = true ∧ b.isBody = true
  | .container c => c.Proper
  | .declared _ => False

theorem proper_of_container? {d : Decl} {name : String} {c : Container} (hd : d.grammatical = true)
    (hname : name.startsWith "_" = true) (hc : d.container? t name = some c) : c.Proper := by
  obtain ⟨id, type, q, bound, body⟩ := d
  unfold Decl.container? Table.container? at hc
  split_ifs at hc with hbounded
  obtain ⟨b, -, rfl⟩ := Option.map_eq_some_iff.1 hc
  simp only [Table.isBounded, Bool.or_eq_true, Bool.and_eq_true, decide_eq_true_eq, beq_iff_eq] at hbounded
  unfold Container.Proper
  cases body with
  | none =>
    -- a schema writes strings with the brackets of a vector, and they are scalars
    change q = if type = Primitive.string.idlName then .scalar else .vec
    split_ifs with hstring
    · simp only [Decl.grammatical, isNamedUse, hstring, if_true, Bool.and_eq_true, beq_iff_eq] at hd
      exact hd.2.1
    · exact hbounded.resolve_right fun h => hstring h.2
  | some b =>
    have hmarked : name ≠ Primitive.string.idlName := by
      rintro rfl
      exact absurd (startsWith_underscore_iff.1 hname) (by simp [Primitive.idlName])
    change q = if name = Primitive.string.idlName then .scalar else .vec
    rw [if_neg hmarked]
    exact hbounded.resolve_right fun h => hmarked h.2

theorem inner_of_mem_declDemands (t : Table) (d : Decl) : ∀ name : String, name.startsWith "_" = true →
    d.grammatical = true → ∀ e ∈ d.demandsAs t name, e.Inner := by
  induction d using Decl.induction with
  | h d ih =>
    intro name hname hd e he
    have hcontainer : e ∈ (d.container? t name).toList.map Demand.container → e.Inner := by
      intro he
      obtain ⟨c, hc, rfl⟩ := List.mem_map.1 he
      exact proper_of_container? hd hname (Option.mem_toList.1 hc)
    cases hb : d.body with
    | none =>
      rw [Decl.demandsAs_of_named hb] at he
      exact hcontainer he
    | some b =>
      rw [Decl.demandsAs_of_body hb, List.mem_append, List.mem_append, List.mem_singleton, b.demandsAs_eq] at he
      rcases he with (he | rfl) | he
      · obtain ⟨m, hm, he⟩ := List.mem_flatMap.1 he
        have hbody := Decl.grammaticalBody_of_body hd hb
        exact ih b hb m hm _ (b.startsWith_innerName name m.id) (Definition.grammatical_of_mem_values hbody hm) e he
      · exact ⟨hname, Decl.isBody_of_body hd hb⟩
      · exact hcontainer he

theorem inner_of_mem_demandsAs (t : Table) (name : String) {d : Definition} (hd : d.grammaticalBody = true) :
    ∀ e ∈ d.demandsAs t name, e.Inner := by
  intro e he
  rw [d.demandsAs_eq] at he
  obtain ⟨m, hm, he⟩ := List.mem_flatMap.1 he
  exact inner_of_mem_declDemands t m _ (d.startsWith_innerName name m.id)
    (Definition.grammatical_of_mem_values hd hm) e he

/-- what is generated for a demand of a definition goes by a claimed name -/
theorem claimed_of_inner {e : Demand} {p : Product} (he : e.Inner) (hp : e.product? t = some p) : p.claimed = true := by
  cases e with
  | inline name b =>
    obtain ⟨f, -, rfl⟩ := Option.map_eq_some_iff.1 hp
    rfl
  | container c =>
    cases hp
    rfl
  | declared d => exact he.elim

/-! ## Claimed names -/

section

variable {ns ns' : Std.HashSet String} {new : List Product}

theorem mem_insert_of_mem {x y : String} (h : x ∈ ns) : y ∈ ns.insert x ↔ y ∈ ns := by
  rw [Std.HashSet.mem_insert, beq_iff_eq, or_iff_right_of_imp]
  rintro rfl
  exact h

/-- the names after are the names before, and one for every claimed product -/
theorem Generates.mem_names (h : Generates t es ns ns' new) (x : String) :
    x ∈ ns' ↔ x ∈ ns ∨ x ∈ claimedNames new := by
  induction h with
  | nil => simp
  | append _ _ ih ih' => rw [ih', ih, claimedNames_append, List.mem_append, or_assoc]
  | inline _ _ hcode _ ih =>
    rw [ih, Std.HashSet.mem_insert, beq_iff_eq, claimedNames_append, List.mem_append, claimedNames_claimed,
      name_of_codeAs hcode, List.mem_singleton, eq_comm (b := x)]
    tauto
  | taken _ htaken => simp [mem_insert_of_mem htaken]
  | container =>
    rw [Std.HashSet.mem_insert, beq_iff_eq, claimedNames_claimed, List.mem_singleton, eq_comm (b := x), or_comm]
    rfl
  | shared htaken => simp [mem_insert_of_mem htaken]
  | declared d ns => simp

/-- a name that is claimed was free -/
theorem Generates.not_mem (h : Generates t es ns ns' new) : ∀ x ∈ claimedNames new, x ∉ ns := by
  induction h with
  | nil => simp
  | append h _ ih ih' =>
    rw [claimedNames_append, List.forall_mem_append]
    exact ⟨ih, fun x hx hns => ih' x hx ((h.mem_names x).2 (.inl hns))⟩
  | inline hfree _ hcode _ ih =>
    rw [claimedNames_append, List.forall_mem_append, claimedNames_claimed, List.forall_mem_singleton,
      name_of_codeAs hcode]
    exact ⟨fun x hx hns => ih x hx (Std.HashSet.mem_insert.2 (.inr hns)), hfree⟩
  | container hfree =>
    rw [claimedNames_claimed, List.forall_mem_singleton]
    exact hfree
  | taken | shared => simp
  | declared d ns => simp

/-- no name is claimed twice -/
theorem Generates.nodup (h : Generates t es ns ns' new) : (claimedNames new).Nodup := by
  induction h with
  | nil => simp
  | append h h' ih ih' =>
    rw [claimedNames_append, List.nodup_append']
    exact ⟨ih, ih', fun x hx hx' => h'.not_mem x hx' ((h.mem_names x).2 (.inr hx))⟩
  | inline hfree _ hcode h ih =>
    rw [claimedNames_append, List.nodup_append', claimedNames_claimed, name_of_codeAs hcode]
    refine ⟨ih, List.nodup_singleton _, fun x hx hx' => ?_⟩
    rw [List.mem_singleton] at hx'
    exact h.not_mem x hx (Std.HashSet.mem_insert.2 (.inl (by simp [hx'])))
  | container => exact List.nodup_singleton _
  | taken | shared => simp
  | declared d ns => simp

/-- what is generated is a part of what is asked for, in order -/
theorem Generates.sublist (h : Generates t es ns ns' new) : new.Sublist (es.filterMap (Demand.product? t)) := by
  induction h with
  | nil => exact List.nil_sublist _
  | append _ _ ih ih' =>
    rw [List.filterMap_append]
    exact ih.append ih'
  | inline _ _ hcode _ ih =>
    rw [List.filterMap_append]
    exact ih.append (by simp [Demand.product?, hcode])
  | container => exact List.Sublist.refl _
  | taken | shared => exact List.nil_sublist _
  | declared d ns => cases h : Demand.product? t (.declared d) <;> simp [h]

/-- every definition of the top level is generated -/
theorem Generates.declared_eq (h : Generates t es ns ns' new) :
    new.filter (fun p => !p.claimed) = (es.filterMap (Demand.product? t)).filter fun p => !p.claimed := by
  induction h with
  | nil => rfl
  | append _ _ ih ih' => rw [List.filter_append, ih, ih', List.filterMap_append, List.filter_append]
  | inline _ _ hcode _ ih =>
    rw [List.filter_append, ih, List.filterMap_append, List.filter_append]
    simp [Demand.product?, hcode]
  | container => rfl
  | @taken name b ns hbody =>
    rw [eq_comm, List.filter_nil, List.filter_eq_nil_iff]
    intro p hp
    obtain ⟨e, he, hpe⟩ := List.mem_filterMap.1 hp
    rcases List.mem_append.1 he with he | he
    · simp [claimed_of_inner (inner_of_mem_demandsAs t name hbody e he) hpe]
    · obtain rfl := List.mem_singleton.1 he
      obtain ⟨f, -, rfl⟩ := Option.map_eq_some_iff.1 hpe
      simp
  | shared => rfl
  | declared d ns => cases h : Demand.product? t (.declared d) <;> simp [h]

end

/-! ## Names that are asked for -/

def Demand.inlineName? : Demand → Option String
  | .inline name _ => some name
  | _ => none

def Demand.container? : Demand → Option Container
  | .container c => some c
  | _ => none

/-- the names made for inline types, one for each -/
def inlineNames (es : List Demand) : List String := es.filterMap Demand.inlineName?

/-- the containers asked for, one for each declaration that asks -/
def containers (es : List Demand) : List Container := es.filterMap Demand.container?

@[simp] theorem inlineNames_append (es es' : List Demand) :
    inlineNames (es ++ es') = inlineNames es ++ inlineNames es' := List.filterMap_append

@[simp] theorem containers_append (es es' : List Demand) :
    containers (es ++ es') = containers es ++ containers es' := List.filterMap_append

theorem mem_inlineNames {x : String} : x ∈ inlineNames es ↔ ∃ b, .inline x b ∈ es := by
  rw [inlineNames, List.mem_filterMap]
  constructor
  · rintro ⟨e, he, hx⟩
    cases e <;> cases hx
    exact ⟨_, he⟩
  · rintro ⟨b, hb⟩
    exact ⟨_, hb, rfl⟩

theorem mem_containers {c : Container} : c ∈ containers es ↔ .container c ∈ es := by
  rw [containers, List.mem_filterMap]
  constructor
  · rintro ⟨e, he, hc⟩
    cases e <;> cases hc
    exact he
  · exact fun h => ⟨_, h, rfl⟩

/-- the names made for inline types and containers -/
def madeNames (t : Table) (es : List Demand) : List String := inlineNames es ++ (containers es).map (Container.name t)

theorem Container.startsWith_name (t : Table) (c : Container) : (c.name t).startsWith "_" = true :=
  startsWith_append (startsWith_append (startsWith_underscored _))

/-- a text of letters and digits: a number, or a constant that nothing defines -/
def IsPlain (text : String) : Prop := ∀ c ∈ text.toList, c.isAlphanum = true

instance : DecidablePred IsPlain := fun text => List.decidableBAll _ text.toList

/-- a plain text is a part of a name as it is -/
theorem wordOf_eq_self {text : String} (h : IsPlain text) : Table.wordOf text = text :=
  map_eq_self fun c hc => if_pos (h c hc)

/-- what is generated under a claimed name: an inline type, or a container -/
theorem Generates.claimed_cases {ns ns' : Std.HashSet String} {new : List Product} (h : Generates t es ns ns' new)
    {p : Product} (hp : p ∈ new) (hclaimed : p.claimed = true) :
    (p.name ∈ inlineNames es ∧ p.fragment.isContainer = false) ∨ ∃ c ∈ containers es, c.code t = p.fragment := by
  obtain ⟨e, he, hpe⟩ := List.mem_filterMap.1 (h.sublist.subset hp)
  cases e with
  | inline name b =>
    obtain ⟨f, hcode, rfl⟩ := Option.map_eq_some_iff.1 hpe
    refine .inl ⟨mem_inlineNames.2 ⟨b, by simpa [Product.name, name_of_codeAs hcode] using he⟩, ?_⟩
    cases b <;> cases hcode <;> rfl
  | container c =>
    cases hpe
    exact .inr ⟨c, mem_containers.2 he, rfl⟩
  | declared d =>
    obtain ⟨f, -, rfl⟩ := Option.map_eq_some_iff.1 hpe
    cases hclaimed

/-- containers go by claimed names -/
theorem Generates.claimed_of_isContainer {ns ns' : Std.HashSet String} {new : List Product}
    (h : Generates t es ns ns' new) {p : Product} (hp : p ∈ new) (hc : p.fragment.isContainer = true) :
    p.claimed = true := by
  obtain ⟨e, -, hpe⟩ := List.mem_filterMap.1 (h.sublist.subset hp)
  cases e with
  | inline name b =>
    obtain ⟨f, -, rfl⟩ := Option.map_eq_some_iff.1 hpe
    rfl
  | container c =>
    cases hpe
    rfl
  | declared d =>
    obtain ⟨f, hcode, rfl⟩ := Option.map_eq_some_iff.1 hpe
    exact absurd (hc.symm.trans (isContainer_of_codeAs hcode)) (by decide)

/-- only names of inline types and of containers are claimed -/
theorem Generates.mem_madeNames {ns ns' : Std.HashSet String} {new : List Product} (h : Generates t es ns ns' new)
    {x : String} (hx : x ∈ claimedNames new) : x ∈ madeNames t es := by
  obtain ⟨p, hp, rfl⟩ := List.mem_map.1 hx
  obtain ⟨hp, hclaimed⟩ := List.mem_filter.1 hp
  rcases h.claimed_cases hp hclaimed with ⟨hinline, -⟩ | ⟨c, hc, hcode⟩
  · exact List.mem_append_left _ hinline
  · refine List.mem_append_right _ (List.mem_map.2 ⟨c, hc, ?_⟩)
    rw [Product.name, ← hcode]
    rfl

theorem Table.mem_demands {e : Demand} :
    e ∈ t.demands ↔ ∃ d ∈ t.definitions, e ∈ d.demandsAs t d.id ∨ e = .declared d := by
  simp [Table.demands]

theorem demands_extend_empty (d : Definition) : (Table.empty.extend d).demands =
    d.demandsAs (Table.empty.extend d) d.id ++ [.declared d] := by
  simp [Table.demands, Table.extend, Table.empty]

/-- names that are made are marked -/
theorem startsWith_of_mem_madeNames (hd : ∀ d ∈ t.definitions, d.grammatical = true) {x : String}
    (hx : x ∈ madeNames t t.demands) : x.startsWith "_" = true := by
  rcases List.mem_append.1 hx with hx | hx
  · obtain ⟨b, hb⟩ := mem_inlineNames.1 hx
    obtain ⟨d, hdef, hb | hb⟩ := Table.mem_demands.1 hb
    · exact (inner_of_mem_demandsAs t d.id (Bool.and_eq_true_iff.1 (hd d hdef)).2 _ hb).1
    · cases hb
  · obtain ⟨c, -, rfl⟩ := List.mem_map.1 hx
    exact c.startsWith_name t

/-- types that are declared inline have a body -/
theorem isBody_of_mem_demands (hd : ∀ d ∈ t.definitions, d.grammatical = true) (name : String) (b : Definition)
    (h : .inline name b ∈ t.demands) : b.isBody = true := by
  obtain ⟨d, hdef, h | h⟩ := Table.mem_demands.1 h
  · exact (inner_of_mem_demandsAs t d.id (Bool.and_eq_true_iff.1 (hd d hdef)).2 _ h).2
  · cases h

/-! ## Inline types with names of their own -/

/-- no two inline types have one name, and none has the name of a container -/
structure InlineApart (t : Table) (es : List Demand) : Prop where
  nodup : (inlineNames es).Nodup
  container : ∀ c ∈ containers es, c.name t ∉ inlineNames es

theorem InlineApart.left (h : InlineApart t (es ++ es')) : InlineApart t es := by
  obtain ⟨hnodup, hcontainer⟩ := h
  rw [inlineNames_append] at hnodup hcontainer
  rw [containers_append] at hcontainer
  exact ⟨(List.nodup_append'.1 hnodup).1,
    fun c hc hn => hcontainer c (List.mem_append_left _ hc) (List.mem_append_left _ hn)⟩

theorem InlineApart.right (h : InlineApart t (es ++ es')) : InlineApart t es' := by
  obtain ⟨hnodup, hcontainer⟩ := h
  rw [inlineNames_append] at hnodup hcontainer
  rw [containers_append] at hcontainer
  exact ⟨(List.nodup_append'.1 hnodup).2.1,
    fun c hc hn => hcontainer c (List.mem_append_right _ hc) (List.mem_append_right _ hn)⟩

section

variable {ns ns₁ ns' : Std.HashSet String} {new : List Product}

/-- names of their own are still free when the demands before are answered -/
theorem Generates.free_right (h : Generates t es ns ns₁ new) (hapart : InlineApart t (es ++ es'))
    (hfree : ∀ n ∈ inlineNames (es ++ es'), n ∉ ns) : ∀ n ∈ inlineNames es', n ∉ ns₁ := by
  obtain ⟨hnodup, hcontainer⟩ := hapart
  rw [inlineNames_append] at hnodup hcontainer hfree
  rw [containers_append] at hcontainer
  intro n hn hns
  rcases (h.mem_names n).1 hns with hns | hclaimed
  · exact hfree n (List.mem_append_right _ hn) hns
  · rcases List.mem_append.1 (h.mem_madeNames hclaimed) with hinline | hcontainers
    · exact (List.nodup_append'.1 hnodup).2.2 hinline hn
    · obtain ⟨c, hc, rfl⟩ := List.mem_map.1 hcontainers
      exact hcontainer c (List.mem_append_left _ hc) (List.mem_append_right _ hn)

/-- inline types with names of their own are all generated, and all containers have their names claimed -/
theorem Generates.complete (h : Generates t es ns ns' new) (hapart : InlineApart t es)
    (hfree : ∀ n ∈ inlineNames es, n ∉ ns) :
    new.filter (fun p => !p.fragment.isContainer) =
        (es.filterMap (Demand.product? t)).filter (fun p => !p.fragment.isContainer) ∧
      ∀ c ∈ containers es, c.name t ∈ ns' := by
  induction h with
  | nil => exact ⟨rfl, List.forall_mem_nil _⟩
  | append h h' ih ih' =>
    obtain ⟨hleft, hnames⟩ := ih hapart.left fun n hn => hfree n (by simp [hn])
    obtain ⟨hright, hnames'⟩ := ih' hapart.right (h.free_right hapart hfree)
    rw [List.filter_append, hleft, hright, List.filterMap_append, List.filter_append, containers_append,
      List.forall_mem_append]
    exact ⟨rfl, fun c hc => (h'.mem_names _).2 (.inl (hnames c hc)), hnames'⟩
  | @inline name b f ns ns' new hname _ hcode h ih =>
    have hfree' : ∀ n ∈ inlineNames (b.demandsAs t name), n ∉ ns.insert name := by
      intro n hn hns
      rcases Std.HashSet.mem_insert.1 hns with heq | hns
      · have hnodup := hapart.nodup
        rw [inlineNames_append, List.nodup_append'] at hnodup
        refine hnodup.2.2 hn (mem_inlineNames.2 ⟨b, ?_⟩)
        rw [← beq_iff_eq.1 heq]
        exact List.mem_singleton_self _
      · exact hfree n (by simp [hn]) hns
    obtain ⟨hbody, hnames⟩ := ih hapart.left hfree'
    rw [List.filter_append, hbody, List.filterMap_append, List.filter_append, containers_append]
    refine ⟨by simp [Demand.product?, hcode], ?_⟩
    simpa [containers, Demand.container?] using hnames
  | @taken name b ns hbody htaken =>
    refine absurd htaken (hfree name (mem_inlineNames.2 ⟨b, ?_⟩))
    simp
  | container | shared => exact ⟨rfl, by simp [containers, Demand.container?]⟩
  | declared d ns => exact ⟨by cases h : Demand.product? t (.declared d) <;> simp [h], List.forall_mem_nil _⟩

theorem madeNames_append_perm (t : Table) (es es' : List Demand) :
    (madeNames t (es ++ es')).Perm (madeNames t es ++ madeNames t es') := by
  simp only [madeNames, inlineNames_append, containers_append, List.map_append, List.append_assoc]
  exact (List.perm_append_comm_assoc _ _ _).append_left _

/-- where all names that are made are different, everything that is asked for is generated -/
theorem Generates.eq_of_nodup (h : Generates t es ns ns' new) (hnodup : (madeNames t es).Nodup)
    (hfree : ∀ x ∈ madeNames t es, x ∉ ns) : new = es.filterMap (Demand.product? t) := by
  induction h with
  | nil => rfl
  | @append es es' _ ns₁ _ _ _ h h' ih ih' =>
    have hperm := madeNames_append_perm t es es'
    rw [hperm.nodup_iff, List.nodup_append'] at hnodup
    simp only [hperm.mem_iff, List.forall_mem_append] at hfree
    obtain ⟨hleft, hright, hdisjoint⟩ := hnodup
    have hfree' : ∀ x ∈ madeNames t es', x ∉ ns₁ := by
      intro x hx hclaimed
      rcases (h.mem_names x).1 hclaimed with hns | hclaimed
      · exact hfree.2 x hx hns
      · exact hdisjoint (h.mem_madeNames hclaimed) hx
    rw [List.filterMap_append, ← ih hleft hfree.1, ← ih' hright hfree']
  | @inline name b f ns _ _ _ _ hcode _ ih =>
    have hperm := madeNames_append_perm t (b.demandsAs t name) [.inline name b]
    rw [hperm.nodup_iff, List.nodup_append'] at hnodup
    simp only [hperm.mem_iff, List.forall_mem_append] at hfree
    obtain ⟨hleft, -, hdisjoint⟩ := hnodup
    have hfree' : ∀ x ∈ madeNames t (b.demandsAs t name), x ∉ ns.insert name := by
      intro x hx hns
      rcases Std.HashSet.mem_insert.1 hns with heq | hns
      · exact hdisjoint hx (List.mem_singleton.2 (beq_iff_eq.1 heq).symm)
      · exact hfree.1 x hx hns
    rw [List.filterMap_append, ← ih hleft hfree']
    simp [Demand.product?, hcode]
  | @taken name b ns _ htaken =>
    refine absurd htaken (hfree name (List.mem_append_left _ (mem_inlineNames.2 ⟨b, ?_⟩)))
    simp
  | container => rfl
  | shared htaken => exact absurd htaken (hfree _ (List.mem_singleton_self _))
  | declared d ns => cases h : Demand.product? t (.declared d) <;> simp [h]

end

/-- so all that is asked for makes up what is generated, in order -/
theorem fragments_of_nodup (hd : ∀ d ∈ t.definitions, d.grammatical = true) (hnodup : (madeNames t t.demands).Nodup) :
    t.emission.fragments.toList = (t.demands.filterMap (Demand.product? t)).map Product.fragment := by
  obtain ⟨new, hfragments, hg⟩ := emission_answers hd
  rw [hfragments, hg.eq_of_nodup hnodup fun _ _ => Std.HashSet.not_mem_empty]
  rfl

/-- where inline types have names of their own, every container is generated under its name -/
theorem exists_container_fragment (hd : ∀ d ∈ t.definitions, d.grammatical = true) (hapart : InlineApart t t.demands) :
    ∀ c ∈ containers t.demands, ∃ f ∈ t.emission.fragments, f.isContainer = true ∧ f.name = c.name t := by
  intro c hc
  obtain ⟨new, hfragments, hg⟩ := emission_answers hd
  have hclaimed : c.name t ∈ claimedNames new := by
    have hname := (hg.complete hapart fun _ _ => Std.HashSet.not_mem_empty).2 c hc
    exact ((hg.mem_names _).1 hname).resolve_left Std.HashSet.not_mem_empty
  obtain ⟨p, hp, hname⟩ := List.mem_map.1 hclaimed
  obtain ⟨hp, hpc⟩ := List.mem_filter.1 hp
  rcases hg.claimed_cases hp hpc with ⟨hinline, -⟩ | ⟨c', -, hcode⟩
  · exact absurd (hname ▸ hinline) (hapart.container c hc)
  · refine ⟨p.fragment, ?_, ?_, hname⟩
    · rw [← Array.mem_toList_iff, hfragments, List.nil_append]
      exact List.mem_map_of_mem hp
    · rw [← hcode]
      rfl

/-- a struct with an inline type in it -/
def nestedStruct : Definition :=
  .struct "S" [⟨"a", "", .scalar, "", some (.struct "" [⟨"x", "int", .scalar, "", none⟩])⟩]

theorem nestedStruct_reachable : (Table.empty.extend nestedStruct).Reachable :=
  Table.reachable_of_addSource (Table.addSource_schemaText (by decide) rfl rfl)

end Xdr
