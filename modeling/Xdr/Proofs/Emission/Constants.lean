/-
Types of constants.

A constant may have another constant, or an enum tag, for its value. The type of each is found on its own way through
the table, from its value to where the chain of constants ends or is closed.
- `constType_of_endless`: a chain without an end passes constants only.
- `constType_of_follows`: a constant and its value stand for one type.
- `mem_emission_const_iff`: which constants are generated, and with which types.
- `constants_typed_alike`: chains of constants of reachable tables, and those that lead to a tag or into a circle.
-/
import Xdr.Proofs.Emission.Containers
import Xdr.Proofs.Emission.Exclusive
import Xdr.Proofs.Emission.Order
import Xdr.Proofs.Schema.Rules
import Xdr.Proofs.Table.Acceptance
import Xdr.Proofs.Table.Chase

namespace Xdr

open Code

variable {t : Table}

/-! ## Names -/

theorem digit?_of_not_isDigit {c : Char} (h : c.isDigit = false) : Integer.digit? 10 c = none := by
  have hdigit : ¬ ('0' ≤ c ∧ c ≤ '9') := by simpa [Char.isDigit, Char.le_def] using h
  rw [Integer.digit?, if_neg hdigit]
  split_ifs <;> simp [Option.filter]

/-- no name is read as an integer: it begins with no digit and no sign -/
theorem read?_of_isName {x : String} (h : isName x = true) : Integer.read? x = none := by
  have hword := (Bool.and_eq_true_iff.1 h).1
  unfold isWord at hword
  unfold Integer.read?
  cases hx : x.toList with
  | nil => rfl
  | cons c r =>
    rw [hx] at hword
    obtain ⟨hdigit, hminus⟩ := not_isDigit_of_isAlpha (Bool.and_eq_true_iff.1 hword).1
    have hzero : c ≠ '0' := by
      rintro rfl
      cases hdigit
    have hnatural : Integer.natural? 10 (c :: r) = none := by
      simp [Integer.natural?, Integer.digits?, digit?_of_not_isDigit hdigit]
    simp [Integer.ofChars?, Integer.magnitude?, hminus, hzero, hnatural]

/-- enum tags are names -/
theorem Table.Reachable.isName_of_enumOf? (ht : t.Reachable) {tag e : String} (h : t.enumOf? tag = some e) :
    isName tag = true := by
  obtain ⟨d, hd, htag⟩ := List.mem_flatMap.1 ((ht.tagged.keys tag e).1 h)
  have hbody := (Bool.and_eq_true_iff.1 (ht.sound.grammatical d (Array.mem_toList_iff.1 hd))).2
  have hown : tag ∈ d.enumTags := by
    rw [← d.map_fst_tags]
    exact List.mem_map_of_mem htag
  obtain ⟨b, hb, htag⟩ := List.mem_flatMap.1 hown
  have hgrammatical := grammaticalBody_of_within (Definition.mem_bodies_iff.1 hb) hbody
  cases b with
  | enum id tags =>
    obtain ⟨g, hg, rfl⟩ := List.mem_map.1 htag
    have htags := (Bool.and_eq_true_iff.1 hgrammatical).2
    exact (Bool.and_eq_true_iff.1 (List.all_eq_true.1 htags g hg)).1
  | const | typedef | struct | union | program => cases htag

/-! ## Chains -/

namespace Table

/-- one step of a chain of constants -/
def Constant (t : Table) : String → String → Prop := Follows fun x => (t.get? x).bind Definition.constValue?

variable {v w : String}

/-- only the end of the chain counts -/
theorem constType_congr (h : t.resolve v = t.resolve w) : t.constType v = t.constType w := by
  unfold constType integer?
  rw [h]

section

variable (ht : t.Reachable)

include ht

/-- a chain without an end passes constants only; so it comes to no integer and to no tag -/
theorem constType_of_endless (h : ∀ e, Relation.ReflTransGen t.Constant v e → ∃ w, t.Constant e w) :
    t.constType v = .integer .i32 := by
  obtain ⟨w, hw⟩ := h (t.resolve v) (reflTransGen_chaseFrom _ _ _)
  obtain ⟨d, hd, -⟩ := Option.bind_eq_some_iff.1 hw
  obtain ⟨hmem, hid⟩ := ht.get?_eq_some hd
  have hread : t.integer? v = none := by
    rw [integer?, ← hid]
    exact read?_of_isName (Bool.and_eq_true_iff.1 (ht.sound.grammatical d hmem)).1
  rw [constType, hread, ← hid, ht.tagged.ids d hmem]

/-- **A constant and its value stand for one type.** If the chain ends, it does so in one place for both; if not, neither
of them leads to anything but constants. -/
theorem constType_of_follows (h : t.Constant v w) : t.constType v = t.constType w := by
  by_cases hend : ∃ e, Relation.ReflTransGen t.Constant w e ∧ ∀ y, ¬ t.Constant e y
  · obtain ⟨e, hchain, hlast⟩ := hend
    have hnone := Option.eq_none_iff_forall_ne_some.2 hlast
    apply constType_congr
    rw [resolve, resolve, ht.indexed.chase_eq_end hchain hnone, ht.indexed.chase_eq_end (.head h hchain) hnone]
  · have hendless : ∀ e, Relation.ReflTransGen t.Constant w e → ∃ y, t.Constant e y := by
      intro e hchain
      by_contra hlast
      exact hend ⟨e, hchain, not_exists.1 hlast⟩
    rw [constType_of_endless ht hendless, constType_of_endless ht]
    intro e hchain
    rcases hchain.cases_head with rfl | ⟨y, hy, hchain⟩
    · exact ⟨w, h⟩
    · obtain rfl := Option.some.inj (hy.symm.trans h)
      exact hendless e hchain

/-- a tag is no constant, so it stands for itself -/
theorem constType_of_tag {tag e : String} (h : t.enumOf? tag = some e) : t.constType tag = .enum e := by
  have hresolve : t.resolve tag = tag := by
    refine chase_of_forall fun d hd => ?_
    obtain ⟨hmem, rfl⟩ := ht.get?_eq_some hd
    rw [ht.tagged.ids d hmem] at h
    cases h
  rw [constType, integer?, hresolve, read?_of_isName (ht.isName_of_enumOf? h), h]

end

end Table

/-! ## Generated constants -/

/-- what is asked for in the course of a definition is a type -/
theorem Generation.isBody_of_transGen {g g' : Generation} (h : Relation.TransGen (Asks t) g g')
    (hg : g.definition.grammaticalBody = true) : g'.definition.isBody = true := by
  obtain ⟨g₁, hsteps, k, m, hm, hg'⟩ := Relation.TransGen.tail'_iff.1 h
  have hbody : g₁.definition.grammaticalBody = true := by
    rcases Relation.reflTransGen_iff_eq_or_transGen.1 hsteps with rfl | hsteps
    · exact hg
    · exact (isSome_own_of_transGen hsteps hg).2
  obtain ⟨b, hb, rfl⟩ := eq_of_generation? hg'
  exact Decl.isBody_of_body (Definition.grammatical_of_mem_values hbody (List.mem_of_getElem? hm)) hb

theorem eq_of_codeAs_const {d : Definition} {name x : String} {type : ConstType} {value : ConstValue}
    (h : d.codeAs t name = some (.const x type value)) :
    name = x ∧ ∃ v, d = .const d.id v ∧ type = t.constType v ∧ value = Table.constValue v := by
  cases d with
  | const id v =>
    cases h
    exact ⟨rfl, v, rfl, rfl, rfl⟩
  | typedef | struct | enum | union | program => cases h

/-- the code of a definition at the top level is part of what is generated -/
theorem mem_emission_of_codeAs {d : Definition} (hd : d ∈ t.definitions) {f : Fragment}
    (hf : d.codeAs t d.id = some f) : f ∈ t.emission.fragments := by
  have hgenerated : d ∈ t.generations.map Generation.definition := by
    rwa [Table.generations, map_definition_generationsFrom, Array.mem_toList_iff]
  obtain ⟨g, hg, rfl⟩ := List.mem_map.1 hgenerated
  have hown : g.own t = some f := by rwa [Generation.own, name_of_mem_generationsFrom hg]
  have hfinish : f ∈ (g.finish t).fragments.toList := by simp [(g.appends_finish t).fragments, hown]
  exact Array.mem_toList_iff.1 ((finish_precedes_of_mem hg).isPrefix.subset hfinish)

/-- **Constants are generated as they are defined**, each with the type that its value stands for. -/
theorem mem_emission_const_iff (ht : t.Reachable) {name : String} {type : ConstType} {value : ConstValue} :
    .const name type value ∈ t.emission.fragments ↔
      ∃ v, .const name v ∈ t.definitions ∧ type = t.constType v ∧ value = Table.constValue v := by
  constructor
  · intro hf
    rcases exists_makes hf with hcontainer | ⟨g, hg, g', hsteps, hown⟩
    · cases hcontainer
    have hd := mem_definitions_of_mem_generations hg
    obtain ⟨hname, v, hconst, htype, hvalue⟩ := eq_of_codeAs_const hown
    rcases Relation.reflTransGen_iff_eq_or_transGen.1 hsteps with rfl | hsteps
    · rw [hconst] at hd
      rw [← hname, name_of_mem_generationsFrom hg]
      exact ⟨v, hd, htype, hvalue⟩
    · have hbody := Generation.isBody_of_transGen hsteps
        (Bool.and_eq_true_iff.1 (ht.sound.grammatical _ hd)).2
      rw [hconst] at hbody
      cases hbody
  · rintro ⟨v, hd, rfl, rfl⟩
    exact mem_emission_of_codeAs hd rfl

namespace Table

/-- the constant is generated, with this type and no other -/
def ConstTyped (t : Table) (name : String) (type : ConstType) : Prop :=
  ∀ type', (∃ value, .const name type' value ∈ t.emission.fragments) ↔ type' = type

/-- the value of the constant `a` names the constant `b` -/
def Aliases (t : Table) (a b : String) : Prop :=
  .const a b ∈ t.definitions ∧ ∃ value, .const b value ∈ t.definitions

variable {a b v : String}

theorem ConstTyped.eq {type type' : ConstType} (h : t.ConstTyped a type) (h' : t.ConstTyped a type') : type = type' :=
  (h' type).1 ((h type).2 rfl)

theorem ConstTyped.iff_eq {type type' : ConstType} (h : t.ConstTyped a type) : t.ConstTyped a type' ↔ type = type' := by
  constructor
  · exact h.eq
  · rintro rfl
    exact h

section

variable (ht : t.Reachable)

include ht

theorem constant_iff : t.Constant a v ↔ .const a v ∈ t.definitions := by
  unfold Constant Follows
  rw [Option.bind_eq_some_iff]
  constructor
  · rintro ⟨d, hd, hv⟩
    obtain ⟨hmem, rfl⟩ := ht.get?_eq_some hd
    cases d <;> cases hv
    exact hmem
  · exact fun hd => ⟨_, ht.indexed.get?_eq_some_iff.2 ⟨hd, rfl⟩, rfl⟩

/-- a constant has the type that its value stands for -/
theorem constTyped (hd : .const a v ∈ t.definitions) : t.ConstTyped a (t.constType v) := by
  intro type
  simp only [mem_emission_const_iff ht]
  constructor
  · rintro ⟨-, w, hw, rfl, rfl⟩
    have hfound := (constant_iff ht).2 hw
    obtain rfl : w = v := Option.some.inj (hfound.symm.trans ((constant_iff ht).2 hd))
    rfl
  · rintro rfl
    exact ⟨_, v, hd, rfl, rfl⟩

/-- constants along a chain have the type that the value of the last one stands for -/
theorem constTyped_of_aliases (h : Relation.ReflTransGen t.Aliases a b) (hd : .const b v ∈ t.definitions) :
    t.ConstTyped a (t.constType v) := by
  induction h using Relation.ReflTransGen.head_induction_on with
  | refl => exact constTyped ht hd
  | @head a c hac _ ih =>
    obtain ⟨ha, w, hc⟩ := hac
    have htype : t.constType c = t.constType v :=
      (constType_of_follows ht ((constant_iff ht).2 hc)).trans ((constTyped ht hc).eq ih)
    rw [← htype]
    exact constTyped ht ha

/-- a constant in a circle leads to constants only -/
theorem constType_of_circle (h : Relation.TransGen t.Aliases b b) : t.constType b = .integer .i32 := by
  have hcircle : Relation.TransGen t.Constant b b := h.lift id fun x y hxy => (constant_iff ht).2 hxy.1
  refine constType_of_endless ht fun e he => ?_
  by_contra hlast
  exact not_transGen_self he (Option.eq_none_iff_forall_ne_some.2 (not_exists.1 hlast)) hcircle

end

/-- the types of constants with names for their values -/
structure ConstantsTypedAlike (t : Table) : Prop where
  /-- every constant is generated with one type -/
  typed : ∀ a v, .const a v ∈ t.definitions → ∃ type, t.ConstTyped a type
  /-- it is the type of every constant that the chain passes -/
  alike : ∀ a b, Relation.ReflTransGen t.Aliases a b → ∀ type, t.ConstTyped a type ↔ t.ConstTyped b type
  /-- behind an enum tag it is the enum that the table records for the tag -/
  tagged : ∀ a b tag e, Relation.ReflTransGen t.Aliases a b → .const b tag ∈ t.definitions → t.enumOf? tag = some e →
    t.ConstTyped a (.enum e)
  /-- constants that lead into a circle are taken for integers -/
  circular : ∀ a b, Relation.ReflTransGen t.Aliases a b → Relation.TransGen t.Aliases b b →
    t.ConstTyped a (.integer .i32)

end Table

/-- **Constants are typed alike along their chains.** In a reachable table every constant is generated with one type: the
one of the constant that its value names, and so of each that the chain passes, in whatever order they are defined; the
enum that the table records for a tag at the end of the chain; and `i32` where the chain runs in a circle. -/
theorem constants_typed_alike {t : Table} (ht : t.Reachable) : t.ConstantsTypedAlike where
  typed a v hd := ⟨_, Table.constTyped ht hd⟩
  alike a b h type := by
    rcases h.cases_tail with rfl | ⟨c, -, -, v, hb⟩
    · rfl
    · rw [(Table.constTyped_of_aliases ht h hb).iff_eq, (Table.constTyped ht hb).iff_eq]
  tagged a b tag e h hd htag := by
    rw [← Table.constType_of_tag ht htag]
    exact Table.constTyped_of_aliases ht h hd
  circular a b h hcircle := by
    obtain ⟨c, ⟨hb, -⟩, -⟩ := Relation.TransGen.head'_iff.1 hcircle
    rw [← Table.constType_of_circle ht hcircle, Table.constType_of_follows ht ((Table.constant_iff ht).2 hb)]
    exact Table.constTyped_of_aliases ht h hb

/-- constants that lead to a tag, defined before it, and two that lead to each other -/
def aliasSchema : List Definition :=
  [.const "START" "MIDDLE", .const "MIDDLE" "RED", .enum "color" [⟨"RED", "0"⟩], .const "PING" "PONG",
    .const "PONG" "PING"]

theorem constants_typed_alike_sample : ∃ t, Table.empty.addSource (schemaText aliasSchema) = (t, .ok 5) ∧
    t.Reachable ∧ t.enumOf? "RED" = some "color" ∧ t.ConstTyped "START" (.enum "color") ∧
    t.ConstTyped "MIDDLE" (.enum "color") ∧ t.ConstTyped "PING" (.integer .i32) ∧
    t.ConstTyped "PONG" (.integer .i32) := by
  have hg : ∀ d ∈ aliasSchema, d.grammatical = true := by decide
  obtain ⟨t, hadd, ht, hds⟩ := exists_table_of_acceptable hg (by decide)
  have hmem : ∀ d ∈ aliasSchema, d ∈ t.definitions := fun d hd => Array.mem_toList_iff.1 (hds ▸ hd)
  have htag : t.enumOf? "RED" = some "color" := by
    refine (ht.tagged.keys _ _).2 (List.mem_flatMap.2 ⟨.enum "color" [⟨"RED", "0"⟩], ?_, List.mem_singleton_self _⟩)
    rw [hds]
    simp [aliasSchema]
  have hstart : t.Aliases "START" "MIDDLE" := ⟨hmem _ (by simp [aliasSchema]), "RED", hmem _ (by simp [aliasSchema])⟩
  have hping : t.Aliases "PING" "PONG" := ⟨hmem _ (by simp [aliasSchema]), "PING", hmem _ (by simp [aliasSchema])⟩
  have hpong : t.Aliases "PONG" "PING" := ⟨hmem _ (by simp [aliasSchema]), "PONG", hmem _ (by simp [aliasSchema])⟩
  have halike := constants_typed_alike ht
  have hcolor := halike.tagged _ _ _ _ (.single hstart) (hmem _ (by simp [aliasSchema])) htag
  have hinteger := halike.circular _ _ .refl (.head hping (.single hpong))
  exact ⟨t, hadd, ht, htag, hcolor, (halike.alike _ _ (.single hstart) _).1 hcolor, hinteger,
    (halike.alike _ _ (.single hping) _).1 hinteger⟩

end Xdr
