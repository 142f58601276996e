/-
Containers and what their names keep apart.

A container is generated for the first declaration that asks for its name, and every later one that asks for the name
gets it. The name is made of the base type and of the bound, with underscores for what is no letter or digit.
- `exists_container_of_mem_fragments`: a generated container is made for a declaration that asks for its name.
- `name_eq_iff`: containers with plain bounds have one name exactly when their bounds are equal, and their base types up
  to a leading underscore and to blanks.
- `forall_fits_iff`: a container is what all declarations that ask for its name want exactly when these want one thing.
- `containers_fit_iff_one_key`: both for every reachable table.
- `conflated_accepted`: a schema that is accepted and gives a declaration a container of another type.
-/
import Xdr.Proofs.Emission.Claims

namespace Xdr

open Code

variable {t : Table}

/-! ## Chains of types -/

/-- a chain that no step leads to `s` ends there only when it starts there -/
theorem chaseFrom_ne {next : String → Option String} {s : String} (hnext : ∀ x y, next x = some y → y ≠ s)
    (fuel : Nat) (seen : List String) {x : String} (hx : x ≠ s) : chaseFrom next fuel seen x ≠ s := by
  induction fuel generalizing seen x with
  | zero => exact hx
  | succ fuel ih =>
    rw [chaseFrom]
    split_ifs
    · exact hx
    · cases h : next x with
      | none => exact hx
      | some y => exact ih (x :: seen) (hnext x y h)

theorem chase_of_forall {next : Definition → Option String} {x : String}
    (h : ∀ d, t.get? x = some d → next d = none) : t.chase next x = x := by
  have hnone : (t.get? x).bind next = none := Option.bind_eq_none_iff.2 h
  simp [Table.chase, chaseFrom, hnone]

/-- what is no constant of the table stands for itself -/
theorem resolve_of_not_const {x : String} (h : ∀ id value, t.get? x ≠ some (.const id value)) : t.resolve x = x := by
  apply chase_of_forall
  intro d hd
  cases d with
  | const id value => exact absurd hd (h id value)
  | _ => rfl

/-- it is read as it stands -/
theorem integer?_of_not_const {x : String} (h : ∀ id value, t.get? x ≠ some (.const id value)) :
    t.integer? x = Integer.read? x := by
  rw [Table.integer?, resolve_of_not_const h]

/-- what is no name of a definition stands for itself -/
theorem Table.Reachable.get?_eq_none (ht : t.Reachable) {x : String} (hx : isName x = false) : t.get? x = none := by
  cases h : t.get? x with
  | none => rfl
  | some d =>
    obtain ⟨hd, rfl⟩ := ht.get?_eq_some h
    rw [(Bool.and_eq_true_iff.1 (ht.sound.grammatical d hd)).1] at hx
    cases hx

theorem aliased?_ne_string {d : Definition} {type : String} (h : d.aliased? = some type) :
    type ≠ Primitive.string.idlName := by
  unfold Definition.aliased? at h
  split at h
  · split_ifs at h with hstring
    obtain rfl := Option.some.inj h
    exact hstring
  · cases h

/-- no other type is the base type `string` -/
theorem baseType_eq_string_iff (ht : t.Reachable) {x : String} :
    t.baseType x = Primitive.string.idlName ↔ x = Primitive.string.idlName := by
  constructor
  · intro h
    by_contra hx
    unfold Table.baseType Table.chase at h
    refine chaseFrom_ne (fun x y hxy => ?_) (t.definitions.size + 1) [] hx h
    obtain ⟨d, -, hd⟩ := Option.bind_eq_some_iff.1 hxy
    exact aliased?_ne_string hd
  · rintro rfl
    refine chase_of_forall fun d hd => ?_
    rw [ht.get?_eq_none (by decide)] at hd
    cases hd

/-! ## Names of containers -/

/-- what a declaration wants of a container: the base type of the elements, how they are held, and the bound -/
def Container.key (t : Table) (c : Container) : String × Qualifier × String := (t.baseType c.base, c.qualifier, c.bound)

/-- a type as it stands in the name of a container, without a leading underscore -/
def typeWord (type : String) : String := stem (type.map fun c => if c = ' ' then '_' else c)

theorem typeWord_of_no_blank {type : String} (h : ' ' ∉ type.toList) : typeWord type = stem type := by
  rw [typeWord, map_eq_self]
  rintro c hc
  refine if_neg fun hblank => h ?_
  rwa [← hblank]

/-- containers with plain bounds are told apart by their bounds and the words of their base types -/
theorem name_eq_iff {c c' : Container} (hc : IsPlain c.bound) (hc' : IsPlain c'.bound) :
    c.name t = c'.name t ↔ typeWord (t.baseType c.base) = typeWord (t.baseType c'.base) ∧ c.bound = c'.bound := by
  have hplain : ∀ {text : String}, IsPlain text → '_' ∉ text.toList := fun h hmem =>
    absurd (h '_' hmem) (by decide)
  rw [Container.name, Container.name, Table.wrapperName, Table.wrapperName, wordOf_eq_self hc, wordOf_eq_self hc',
    joined_eq_iff (hplain hc) (hplain hc'), underscored_eq_iff]
  rfl

theorem proper_of_mem_containers (hd : ∀ d ∈ t.definitions, d.grammatical = true) {c : Container}
    (hc : c ∈ containers t.demands) : c.Proper := by
  obtain ⟨d, hdef, hc | hc⟩ := Table.mem_demands.1 (mem_containers.1 hc)
  · exact inner_of_mem_demandsAs t d.id (Bool.and_eq_true_iff.1 (hd d hdef)).2 _ hc
  · cases hc

/-- containers of one base type hold it in one way -/
theorem qualifier_eq_of_baseType_eq (ht : t.Reachable) {c c' : Container} (hc : c ∈ containers t.demands)
    (hc' : c' ∈ containers t.demands) (h : t.baseType c.base = t.baseType c'.base) : c.qualifier = c'.qualifier := by
  have hstring : c.base = Primitive.string.idlName ↔ c'.base = Primitive.string.idlName := by
    rw [← baseType_eq_string_iff ht, h, baseType_eq_string_iff ht]
  rw [proper_of_mem_containers ht.sound.grammatical hc, proper_of_mem_containers ht.sound.grammatical hc']
  simp only [hstring]

/-! ## What is generated for a name -/

/-- elements and bound of a generated container are what a declaration wants -/
def Container.Fits (t : Table) (c : Container) (elem : TypeExpr) (bound : String) : Prop :=
  bound = c.bound ∧ ∃ base, elem = t.container c.qualifier base "" ∧ t.baseType base = t.baseType c.base

theorem container_inj {q q' : Qualifier} {base base' : String} (h : t.container q base "" = t.container q' base' "") :
    q = q' ∧ base = base' := by
  cases q <;> cases q' <;> simp_all [Table.container]

/-- a generated container is the code of one that is asked for -/
theorem exists_container_of_mem_fragments (hd : ∀ d ∈ t.definitions, d.grammatical = true) {f : Fragment}
    (hf : f ∈ t.emission.fragments) (hcontainer : f.isContainer = true) :
    ∃ c ∈ containers t.demands, c.code t = f := by
  obtain ⟨new, hfragments, hg⟩ := emission_answers hd
  rw [← Array.mem_toList_iff, hfragments, List.nil_append] at hf
  obtain ⟨p, hp, rfl⟩ := List.mem_map.1 hf
  rcases hg.claimed_cases hp (hg.claimed_of_isContainer hp hcontainer) with ⟨-, h⟩ | h
  · rw [hcontainer] at h
    cases h
  · exact h

/-- a generated container fits all who ask for its name exactly when these want one thing -/
theorem forall_fits_iff (hd : ∀ d ∈ t.definitions, d.grammatical = true) {name bound : String} {elem : TypeExpr}
    {ofBytes : Bool} (hf : .wrapper name elem bound ofBytes ∈ t.emission.fragments) :
    (∀ c ∈ containers t.demands, c.name t = name → c.Fits t elem bound) ↔
      ∀ c ∈ containers t.demands, ∀ c' ∈ containers t.demands, c.name t = name → c'.name t = name →
        c.key t = c'.key t := by
  constructor
  · intro h c hc c' hc' hname hname'
    obtain ⟨hbound, base, helem, hbase⟩ := h c hc hname
    obtain ⟨hbound', base', helem', hbase'⟩ := h c' hc' hname'
    obtain ⟨hq, rfl⟩ := container_inj (helem.symm.trans helem')
    rw [Container.key, Container.key, ← hbase, ← hbase', ← hbound, ← hbound', hq]
  · intro h c hc hname
    obtain ⟨c₀, hc₀, hcode⟩ := exists_container_of_mem_fragments hd hf rfl
    obtain ⟨rfl, rfl, rfl, -⟩ := Fragment.wrapper.inj hcode
    have hkey := h c hc c₀ hc₀ hname rfl
    simp only [Container.key, Prod.mk.injEq] at hkey
    obtain ⟨hbase, hq, hbound⟩ := hkey
    exact ⟨hbound.symm, c₀.base, by rw [hq], hbase.symm⟩

/-! ## Every table -/

theorem container_ne_wrapper (t : Table) (q : Qualifier) (base length w : String) :
    t.container q base length ≠ .wrapper w := by
  cases q <;> exact TypeExpr.noConfusion

/-- the type of a declaration is a container's name exactly when it asks for the container -/
theorem typeAs_eq_wrapper_iff {d : Decl} {name w : String} {s : Emission} :
    (d.typeAs t name s).1 = .wrapper w ↔ ∃ c, d.container? t name = some c ∧ c.name t = w := by
  rw [typeAs_fst]
  unfold Decl.typeExpr Table.typeExpr Decl.container?
  cases t.container? d.qualifier (d.baseName name) d.bound with
  | none => simp [container_ne_wrapper]
  | some c => simp

theorem exists_wrapper (hd : ∀ d ∈ t.definitions, d.grammatical = true) (hapart : InlineApart t t.demands)
    (c : Container) (hc : c ∈ containers t.demands) :
    ∃ elem bound ofBytes, .wrapper (c.name t) elem bound ofBytes ∈ t.emission.fragments := by
  obtain ⟨f, hf, hcontainer, hname⟩ := exists_container_fragment hd hapart c hc
  cases f with
  | wrapper name elem bound ofBytes =>
    obtain rfl : name = c.name t := hname
    exact ⟨elem, bound, ofBytes, hf⟩
  | _ => cases hcontainer

theorem key_eq_iff (ht : t.Reachable) {c c' : Container} (hc : c ∈ containers t.demands)
    (hc' : c' ∈ containers t.demands) :
    c.key t = c'.key t ↔ t.baseType c.base = t.baseType c'.base ∧ c.bound = c'.bound := by
  simp only [Container.key, Prod.mk.injEq]
  constructor
  · rintro ⟨hbase, -, hbound⟩
    exact ⟨hbase, hbound⟩
  · rintro ⟨hbase, hbound⟩
    exact ⟨hbase, qualifier_eq_of_baseType_eq ht hc hc' hbase, hbound⟩

/-- **Containers fit where names tell apart what declarations want.** In a reachable table the type of a declaration is
the name of a container exactly when the declaration asks for one of that name, in any state, and where inline types
have names of their own it is generated. What is generated under a name has the elements and the bound that all who ask
for the name want exactly when these want one thing. Two want one thing exactly when their base types and bounds are
equal, and have one name, if the bounds are plain, exactly when their base types are equal but for blanks and a leading
underscore, and their bounds are. -/
theorem containers_fit_iff_one_key {t : Table} (ht : t.Reachable) :
    (∀ (name w : String) (d : Decl) (s : Emission),
      (d.typeAs t name s).1 = .wrapper w ↔ ∃ c, d.container? t name = some c ∧ c.name t = w) ∧
    (InlineApart t t.demands → ∀ c ∈ containers t.demands, ∃ elem bound ofBytes,
      .wrapper (c.name t) elem bound ofBytes ∈ t.emission.fragments) ∧
    (∀ (name : String) (elem : TypeExpr) (bound : String) (ofBytes : Bool),
      .wrapper name elem bound ofBytes ∈ t.emission.fragments →
        ((∀ c ∈ containers t.demands, c.name t = name → c.Fits t elem bound) ↔
          ∀ c ∈ containers t.demands, ∀ c' ∈ containers t.demands, c.name t = name → c'.name t = name →
            c.key t = c'.key t)) ∧
    ∀ c ∈ containers t.demands, ∀ c' ∈ containers t.demands,
      (c.key t = c'.key t ↔ t.baseType c.base = t.baseType c'.base ∧ c.bound = c'.bound) ∧
      (IsPlain c.bound → IsPlain c'.bound → (c.name t = c'.name t ↔
        typeWord (t.baseType c.base) = typeWord (t.baseType c'.base) ∧ c.bound = c'.bound)) :=
  ⟨fun _ _ _ _ => typeAs_eq_wrapper_iff, exists_wrapper ht.sound.grammatical, fun _ _ _ _ hf => forall_fits_iff ht.sound.grammatical hf,
    fun _ hc _ hc' => ⟨key_eq_iff ht hc hc', name_eq_iff⟩⟩

/-! ## Two containers of one name -/

/-- a type that no definition makes an alias is its own base type -/
theorem baseType_eq_self (ht : t.Reachable) {x : String} (h : ∀ d ∈ t.definitions, d.id = x → d.aliased? = none) :
    t.baseType x = x := by
  refine chase_of_forall fun d hd => ?_
  obtain ⟨hmem, hid⟩ := ht.get?_eq_some hd
  exact h d hmem hid

/-- what an expression with a number stands for -/
theorem Table.bound_of_integer {expr : String} {v : Int} (h : t.integer? expr = some v) : t.bound expr =
    if v = unlimited then .none else if 0 ≤ v ∧ v < unlimited then .limit v.toNat else .verbatim expr := by
  have hne : t.resolve expr ≠ "" := by
    intro hempty
    have hread : Integer.read? "" = none := by decide
    rw [integer?, hempty, hread] at h
    cases h
  rw [bound, if_neg hne, h]

/-- a number that is less than the bound for none is a limit -/
theorem Table.bound_of_lt {expr : String} {n : Nat} (h : t.integer? expr = some (n : Int))
    (hn : (n : Int) < unlimited) : t.bound expr = .limit n := by
  rw [bound_of_integer h, if_neg (Int.ne_of_lt hn), if_pos ⟨Int.natCast_nonneg n, hn⟩]
  rfl

/-- what is no name has the number that is read off it -/
theorem integer?_of_not_name (ht : t.Reachable) {text : String} (htext : isName text = false) :
    t.integer? text = Integer.read? text :=
  integer?_of_not_const (by simp [ht.get?_eq_none htext])

theorem bound_of_number (ht : t.Reachable) {text : String} {n : Nat} (htext : isName text = false)
    (hread : Integer.read? text = some (n : Int)) (hn : (n : Int) < unlimited) : t.bound text = .limit n :=
  Table.bound_of_lt ((integer?_of_not_name ht htext).trans hread) hn

/-- two containers with one bound -/
def vectors : Definition := .struct "S" [⟨"a", "int", .vec, "5", none⟩, ⟨"b", "hyper", .vec, "5", none⟩]

theorem containers_fit_iff_one_key_sample : (Table.empty.extend vectors).Reachable ∧
    containers (Table.empty.extend vectors).demands = [⟨.vec, "int", "5"⟩, ⟨.vec, "hyper", "5"⟩] ∧
    Container.name (Table.empty.extend vectors) ⟨.vec, "int", "5"⟩ ≠
      Container.name (Table.empty.extend vectors) ⟨.vec, "hyper", "5"⟩ := by
  have ht : (Table.empty.extend vectors).Reachable :=
    Table.reachable_of_addSource (Table.addSource_schemaText (by decide) rfl rfl)
  have hbound : (Table.empty.extend vectors).bound "5" = .limit 5 :=
    bound_of_number ht (by decide) (by decide) (by decide)
  have hbase : ∀ x, x ≠ "S" → (Table.empty.extend vectors).baseType x = x := by
    intro x hx
    refine baseType_eq_self ht fun d hd hid => ?_
    obtain rfl : d = vectors := by simpa [Table.extend, Table.empty] using hd
    exact absurd hid.symm hx
  have hcontainers : ∀ t : Table, t.bound "5" = .limit 5 →
      containers (vectors.demandsAs t vectors.id ++ [.declared vectors]) =
        [⟨.vec, "int", "5"⟩, ⟨.vec, "hyper", "5"⟩] := by
    intro t hbound
    have hfive : Nat.repr 5 = "5" := by decide
    simp [vectors, Definition.demandsAs, fieldDemands, Decl.demandsAs, Table.container?, Table.isBounded, containers,
      Demand.container?, hbound, Bound.text?, hfive]
  replace hcontainers := hcontainers _ hbound
  rw [← demands_extend_empty] at hcontainers
  refine ⟨ht, hcontainers, fun heq => ?_⟩
  obtain ⟨-, -, -, hall⟩ := containers_fit_iff_one_key ht
  have hname := (hall ⟨.vec, "int", "5"⟩ (by simp [hcontainers]) ⟨.vec, "hyper", "5"⟩ (by simp [hcontainers])).2
    (by decide) (by decide)
  rw [hname, hbase _ (by decide), hbase _ (by decide), typeWord_of_no_blank (by decide),
    typeWord_of_no_blank (by decide)] at heq
  exact absurd heq (by decide)

/-- a type, and another one that has the same word in the names of containers -/
def conflated : List Definition :=
  [.struct "_int" [⟨"v", "hyper", .scalar, "", none⟩],
    .struct "S" [⟨"a", "int", .vec, "5", none⟩, ⟨"b", "_int", .vec, "5", none⟩]]

/-- **A schema is accepted, and a declaration gets a container of another type.** The container is made for `a`, and the
vector `b` of structs gets it too. -/
theorem conflated_accepted : Table.empty.addSource (schemaText conflated) = (Table.ofDefinitions conflated, .ok 2) ∧
    (Table.ofDefinitions conflated).emission.fragments.toList =
      [.struct "_int" [⟨"v", .named "hyper"⟩], .wrapper "_int_5" (.vec "int") "5" false,
        .struct "S" [⟨"a", .wrapper "_int_5"⟩, ⟨"b", .wrapper "_int_5"⟩]] ∧
    (Table.ofDefinitions conflated).baseType "int" ≠ (Table.ofDefinitions conflated).baseType "_int" ∧
    ¬ Container.Fits (Table.ofDefinitions conflated) ⟨.vec, "_int", "5"⟩ (.vec "int") "5" := by
  have hsource : Table.empty.addSource (schemaText conflated) = (Table.ofDefinitions conflated, .ok 2) := by
    refine Table.addSource_schemaText_of_nodup (by decide) ?_ ?_ (by decide)
    · exact List.forall_mem_cons.2 ⟨rfl, List.forall_mem_singleton.2 rfl⟩
    · exact List.forall_mem_cons.2 ⟨rfl, List.forall_mem_singleton.2 rfl⟩
  have ht := Table.reachable_of_addSource hsource
  have hbound : (Table.ofDefinitions conflated).bound "5" = .limit 5 :=
    bound_of_number ht (by decide) (by decide) (by decide)
  have hbase : ∀ x, (Table.ofDefinitions conflated).baseType x = x := by
    refine fun x => baseType_eq_self ht fun d hd _ => ?_
    have hd : d ∈ conflated := Array.mem_toList_iff.2 hd
    rcases List.mem_pair.1 hd with rfl | rfl <;> rfl
  have hrun : ∀ t : Table, t.bound "5" = .limit 5 → t.wrapperName "int" "5" = "_int_5" →
      t.wrapperName "_int" "5" = "_int_5" →
      (((conflated.forM fun d => d.emit t) : StateM Emission Unit) {}).2.fragments.toList =
        [.struct "_int" [⟨"v", .named "hyper"⟩], .wrapper "_int_5" (.vec "int") "5" false,
          .struct "S" [⟨"a", .wrapper "_int_5"⟩, ⟨"b", .wrapper "_int_5"⟩]] := by
    intro t hbound hint hstruct
    have hfive : Nat.repr 5 = "5" := by decide
    have hbytes : (Primitive.ofIdlName? "int").any Primitive.isByteSequence = false := by decide
    simp [conflated, Definition.emit, Definition.emitAs, emitFields, Decl.typeAs, Definition.id, run_bind, run_map,
      run_pure, run_claim, run_push, Table.typeOf, Table.isBounded, Primitive.idlName, Table.container, Table.boundOf,
      hbound, hint, hstruct, hfive, hbytes, Bound.text?, Table.materialize]
  have hname : ∀ x, ' ' ∉ x.toList → stem x = "int" →
      (Table.ofDefinitions conflated).wrapperName x "5" = "_int_5" := by
    intro x hblank hstem
    have hword := typeWord_of_no_blank hblank
    rw [typeWord, hstem] at hword
    rw [Table.wrapperName, hbase, underscored_eq, hword, wordOf_eq_self (by decide)]
    decide
  refine ⟨hsource, hrun _ hbound (hname _ (by decide) (by decide)) (hname _ (by decide) (by decide)), ?_, ?_⟩
  · rw [hbase, hbase]
    decide
  · rintro ⟨-, base, helem, hbaseType⟩
    obtain rfl : "int" = base := TypeExpr.vec.inj helem
    rw [hbase, hbase] at hbaseType
    exact absurd hbaseType (by decide)

end Xdr
