/-
Numbers that are no integer literals.

A number is scanned as a digit, behind a sign or not, and all word characters that follow. The grammar takes it for a
value, and no rule of a schema reads it. Where something is worked out of it later, a number that is no integer literal
is taken for a name: it stands in the generated text as an identifier or, where it bounds a container, as it is.
- `isNumber_iff_scan`, `ident_of_isNumber`: what is scanned as a number, and what it is as an identifier.
- `Definition.isValue_of_mem_exprs`: the expressions of a schema are numbers and names.
- `mem_written_iff`, `exists_container_iff`: the malformed numbers in the code of a definition, and in that of a
  container.
- `Decl.exists_writes_iff`: those in all code that a declaration asks for, by induction on what is declared in it.
- `malformed_written_iff`: every number is accepted, and a malformed one is written wherever it is used.
- `malformed_accepted`: a source that is accepted, and what is generated for it.
-/
import Mathlib
import Xdr.Proofs.Emission.Bounds
import Xdr.Proofs.Emission.EnumCasts
import Xdr.Proofs.Integer.Literal

namespace Xdr

open Code Text

variable {t : Table} {x name base bound : String} {q : Qualifier}

/-! ## Numbers -/

/-- a number that is no integer literal -/
def Malformed (x : String) : Prop := isNumber x = true ∧ Integer.read? x = none

instance : DecidablePred Malformed := fun _ => inferInstanceAs (Decidable (_ ∧ _))

theorem isNumber_iff_scan : isNumber x = true ↔ ∃ stop, scan x = .ok ⟨[⟨.number x, ⟨1, 1⟩⟩], stop⟩ := by
  constructor
  · intro hx
    have hspelled : (Lexeme.number x).wellSpelled = true := hx
    obtain ⟨c, r, hcr, hlexeme⟩ : ∃ c r, (Lexeme.number x).chars ++ [] = c :: r ∧ lexeme? c r = some (.number x, []) :=
      lexeme?_of_wellSpelled hspelled (.inl rfl)
    have hgap : skipGap .outside .start x.toList = .ok (.start, c :: r) := by
      have hskip := skipGap_of_startsLexeme .start (startsLexeme_of_wellSpelled hspelled [])
      rw [hcr] at hskip
      rwa [show x.toList = c :: r from (List.append_nil _).symm.trans hcr]
    rw [scan, scanFrom_lexeme hgap hlexeme, scanFrom_end rfl]
    exact ⟨_, rfl⟩
  · rintro ⟨stop, hscan⟩
    exact wellSpelled_of_mem_scan hscan _ List.mem_cons_self

/-- the characters that a number begins with -/
def numberStarts : List Char := ['-', '0', '1', '2', '3', '4', '5', '6', '7', '8', '9']

theorem exists_cons_of_isNumber (hx : isNumber x = true) : ∃ c r, x.toList = c :: r ∧ c ∈ numberStarts := by
  unfold isNumber at hx
  cases hchars : x.toList with
  | nil => simp [hchars] at hx
  | cons c r =>
    simp only [hchars, Bool.and_eq_true, Bool.or_eq_true, decide_eq_true_eq] at hx
    refine ⟨c, r, rfl, ?_⟩
    rcases hx.1 with hdigit | ⟨rfl, -⟩
    · have hrange : '0' ≤ c ∧ c ≤ '9' := by simpa [Char.isDigit, Char.le_def] using hdigit
      obtain ⟨hc, hvalue⟩ := Integer.eq_ofNat_of_range hrange
      generalize c.toNat - '0'.toNat = k at hc hvalue
      change k ≤ 9 at hvalue
      rw [hc]
      interval_cases k <;> decide
    · decide

theorem isName_of_isNumber (hx : isNumber x = true) : isName x = false := by
  obtain ⟨c, r, hcr, hc⟩ := exists_cons_of_isNumber hx
  have hletter : ∀ c ∈ numberStarts, ¬ (c.isAlpha || c = '_') = true := List.any_eq_false.1 (by decide)
  rw [isName, isWord, hcr]
  simp [hletter c hc]

theorem ne_empty_of_isNumber (hx : isNumber x = true) : x ≠ "" := by
  rintro rfl
  exact absurd hx (by decide)

/-- a number is no identifier, so it becomes a raw one -/
theorem ident_of_isNumber (hx : isNumber x = true) : ident x = "r#" ++ x := by
  obtain ⟨c, r, hcr, hc⟩ := exists_cons_of_isNumber hx
  have hstart : ∀ c ∈ numberStarts,
      ¬ (isSpace c || isLetter c || c = '_' || c = '/' || c = 'r' || c = '\ufeff') = true :=
    List.any_eq_false.1 (by decide)
  have hstart := hstart c hc
  simp only [Bool.or_eq_true, decide_eq_true_eq, not_or, Bool.not_eq_true] at hstart
  obtain ⟨⟨⟨⟨⟨hspace, hletter⟩, hunderscore⟩, hslash⟩, hr⟩, hmark⟩ := hstart
  have hword : ∀ w ∈ ["self", "Self", "super", "crate", "gen"], x ≠ w := by
    rintro w hw rfl
    have hnone : ∀ w ∈ ["self", "Self", "super", "crate", "gen"], isNumber w = false := by decide
    exact absurd (hx.symm.trans (hnone _ hw)) (by decide)
  have hskip : skipSpace .outside (c :: r) = some (c :: r) := by
    cases r <;> simp [skipSpace, hspace, isLineComment, isBlockComment, hslash]
  have hidentifier : isIdentifier x = false := by
    simp [isIdentifier, hcr, hmark, hskip, identifier?, hr, word?, hletter, hunderscore]
  simp only [List.mem_cons, List.not_mem_nil, or_false, forall_eq_or_imp, forall_eq] at hword
  simp [ident, hword, hidentifier]

/-! ## Expressions of a schema -/

namespace Definition

/-- the value of a constant, or the labels of a union -/
def plainExprs : Definition → List String
  | .const _ value => [value]
  | .union _ _ _ arms _ => labels arms
  | _ => []

/-- the values, labels, lengths and bounds in a definition; a type that is declared in it has its own -/
def exprs (d : Definition) : List String :=
  d.plainExprs ++ d.tagValues ++ (d.values.map Decl.bound).filter fun b => b ≠ ""

end Definition

/-- the numbers of a program, of its versions and of their procedures -/
def Program.numbers (p : Program) : List String :=
  p.number :: p.versions.flatMap fun v => v.number :: v.procedures.map Procedure.number

namespace Table

/-- a definition of the table, at any depth, has the expression -/
def Uses (t : Table) (x : String) : Prop := ∃ d ∈ t.definitions, ∃ e : Definition, e.Within d ∧ x ∈ e.exprs

/-- a program of the table has the expression for a number -/
def Numbers (t : Table) (x : String) : Prop := ∃ p, .program p ∈ t.definitions ∧ x ∈ p.numbers

end Table

/-- only what has a length or a bound takes an expression -/
theorem array_or_vec_of_takes (hq : q.takes bound = true) (hbound : bound ≠ "") :
    (q = .array ∨ q = .vec) ∧ isValue bound = true := by
  cases q <;> simp_all [Qualifier.takes]

theorem Decl.isValue_bound {m : Decl} (hm : m.grammatical = true) (hbound : m.bound ≠ "") : isValue m.bound = true := by
  obtain ⟨id, type, q, bound, body⟩ := m
  cases body with
  | none =>
    obtain ⟨-, huse⟩ := Bool.and_eq_true_iff.1 hm
    unfold isNamedUse at huse
    split_ifs at huse
    all_goals exact (array_or_vec_of_takes (Bool.and_eq_true_iff.1 huse).2 hbound).2
  | some b =>
    simp only [Decl.grammatical, Bool.and_eq_true] at hm
    exact (array_or_vec_of_takes hm.1.1.1.2 hbound).2

theorem mem_labels {arms : List Arm} : x ∈ labels arms ↔ ∃ a ∈ arms, a.isDefault = false ∧ x ∈ a.cases := by
  simp [labels, and_assoc]

namespace Definition

variable {d : Definition}

theorem mem_exprs (hx : x ≠ "") :
    x ∈ d.exprs ↔ (x ∈ d.plainExprs ∨ x ∈ d.tagValues) ∨ ∃ m ∈ d.values, m.bound = x := by
  simp only [exprs, List.mem_append, List.mem_filter, List.mem_map, decide_eq_true_eq, and_iff_left hx]

/-- **Every expression is a number or a name.** -/
theorem isValue_of_mem_exprs (hd : d.grammaticalBody = true) (hx : x ∈ d.exprs) : isValue x = true := by
  rw [exprs, List.mem_append, List.mem_append] at hx
  rcases hx with (hx | hx) | hx
  · cases d with
    | const id value => exact List.mem_singleton.1 hx ▸ hd
    | union id tagId tagType arms hasDefault =>
      obtain ⟨a, ha, hdefault, hx⟩ := mem_labels.1 hx
      simp only [grammaticalBody, Bool.and_eq_true] at hd
      have harm := grammaticalArms_iff.1 hd.2 a ha
      simp only [Arm.grammatical, labelled, hdefault, Bool.false_eq_true, if_false, Bool.and_eq_true,
        List.all_eq_true] at harm
      exact harm.1.2 x hx
    | typedef | struct | enum | program => cases hx
  · cases d with
    | enum id tags =>
      obtain ⟨g, hg, rfl⟩ := List.mem_map.1 hx
      have htags := List.all_eq_true.1 (Bool.and_eq_true_iff.1 hd).2 g hg
      exact (Bool.and_eq_true_iff.1 htags).2
    | const | typedef | struct | union | program => cases hx
  · obtain ⟨hx, hempty⟩ := List.mem_filter.1 hx
    obtain ⟨m, hm, rfl⟩ := List.mem_map.1 hx
    exact Decl.isValue_bound (grammatical_of_mem_values hd hm) (of_decide_eq_true hempty)

end Definition

theorem Program.isValue_of_mem_numbers {p : Program} (hp : p.grammatical = true) (hx : x ∈ p.numbers) :
    isValue x = true := by
  simp only [Program.grammatical, Bool.and_eq_true, List.all_eq_true] at hp
  simp only [numbers, List.mem_cons, List.mem_flatMap, List.mem_map] at hx
  rcases hx with rfl | ⟨v, hv, rfl | ⟨r, hr, rfl⟩⟩
  · exact hp.1.1.2
  all_goals
    have hversion := hp.2 v hv
    simp only [Version.grammatical, Bool.and_eq_true, List.all_eq_true] at hversion
  · exact hversion.1.1.2
  · have hprocedure := hversion.2 r hr
    simp only [Procedure.grammatical, Bool.and_eq_true] at hprocedure
    exact hprocedure.1.1.1.2

/-! ## Expressions in a fragment -/

/-- the name that the value of a constant is -/
def Code.ConstValue.name? : ConstValue → Option String
  | .name id => some id
  | .literal _ => none

/-- the name that a pattern is -/
def Code.Pattern.name? : Pattern → Option String
  | .name id => some id
  | .tagged .. | .literal _ => none

namespace Code.Fragment

/-- the values and patterns that are identifiers, and the bound of a container -/
def plainNames : Fragment → List String
  | .const _ _ value => value.name?.toList
  | .union u => u.explicit.filterMap Pattern.name?
  | .wrapper _ _ bound _ => [bound]
  | _ => []

/-- the texts that stand in a fragment as they are written in the schema -/
def written (f : Fragment) : List String := f.plainNames ++ f.casts

end Code.Fragment

theorem explicit_code (t : Table) (enum : Option String) (name tagId tagType : String) (arms : List Arm)
    (hasDefault : Bool) :
    UnionCode.explicit ⟨name, tagId, tagType, arms.map (Arm.code t name enum), hasDefault⟩ =
      (labels arms).map (t.pattern enum) := by
  rw [UnionCode.explicit, UnionCode.explicitArms, List.filter_map, List.flatMap_map, labels, List.map_flatMap]
  rfl

theorem name?_constValue_iff {value : String} :
    (Table.constValue value).name? = some x ↔ value = x ∧ Integer.read? x = none := by
  unfold Table.constValue
  cases hread : Integer.read? value with
  | some n =>
    refine iff_of_false nofun ?_
    rintro ⟨rfl, hnone⟩
    cases hread.symm.trans hnone
  | none =>
    constructor
    · rintro ⟨⟩
      exact ⟨rfl, hread⟩
    · rintro ⟨rfl, -⟩
      rfl

theorem name?_pattern_iff {enum : Option String} {label : String} :
    (t.pattern enum label).name? = some x ↔ label = x ∧ t.integer? x = none := by
  have hname : ∀ p : Pattern, p.name? = some x ↔ p = .name x := fun p => by cases p <;> simp [Pattern.name?]
  rw [hname, pattern_eq_name_iff]
  constructor
  all_goals
    rintro ⟨rfl, hnone⟩
    exact ⟨rfl, hnone⟩

/-- the text of a bound is a decimal, or the expression as it is written -/
theorem eq_of_text?_bound (hx : Integer.read? x = none) (h : (t.bound bound).text? = some x) : bound = x := by
  have hlimit : ∀ {v : Int}, v < unlimited → (Bound.limit v.toNat).text? ≠ some x := by
    intro v hv hlimit
    obtain rfl := Option.some.inj hlimit
    have hsmall : v.toNat ≤ Integer.maxMagnitude := by
      have hmax : unlimited ≤ (Integer.maxMagnitude : Int) := by decide
      omega
    cases hx.symm.trans (Integer.read?_toString hsmall)
  unfold Table.bound at h
  split_ifs at h with hempty
  · cases h
  cases hv : t.integer? bound with
  | none =>
    rw [hv] at h
    exact Option.some.inj h
  | some v =>
    rw [hv] at h
    dsimp only at h
    split_ifs at h with hnone hrange
    · cases h
    · exact absurd h (hlimit hrange.2)
    · exact Option.some.inj h

/-- a container has nothing of the schema in it but its bound -/
theorem written_of_container? {c : Container} (h : t.container? q base bound = some c) :
    (c.code t).written = [c.bound] := by
  unfold Table.container? at h
  split_ifs at h with hbounded
  obtain ⟨b, -, rfl⟩ := Option.map_eq_some_iff.1 h
  cases q <;> first | rfl | cases hbounded

section

variable (ht : t.Reachable)

include ht

theorem resolve_of_isNumber (hx : isNumber x = true) : t.resolve x = x :=
  chase_of_forall (by simp [ht.get?_eq_none (isName_of_isNumber hx)])

theorem integer?_of_isNumber (hx : isNumber x = true) : t.integer? x = Integer.read? x :=
  integer?_of_not_name ht (isName_of_isNumber hx)

theorem enumOf?_of_isNumber (hx : isNumber x = true) : t.enumOf? x = none := by
  refine Option.eq_none_iff_forall_ne_some.2 fun e he => ?_
  exact absurd ((isName_of_isNumber hx).symm.trans (ht.isName_of_enumOf? he)) (by decide)

/-- **A number stands in the code of a definition as it is written** when the definition uses it and it is malformed. -/
theorem mem_written_iff {e : Definition} {f : Fragment} (hx : isNumber x = true) (hcode : e.codeAs t name = some f) :
    x ∈ f.written ↔ Integer.read? x = none ∧ (x ∈ e.plainExprs ∨ x ∈ e.tagValues ∨ x ∈ e.arrayLengths) := by
  have hinteger := integer?_of_isNumber ht hx
  have hcasts : x ∈ f.casts ↔ Integer.read? x = none ∧ (x ∈ e.tagValues ∨ x ∈ e.arrayLengths) := by
    rw [mem_casts_iff hcode, hinteger, enumOf?_of_isNumber ht hx]
    simp
  have hplain : x ∈ f.plainNames ↔ Integer.read? x = none ∧ x ∈ e.plainExprs := by
    cases e with
    | const id value =>
      cases hcode
      rw [Fragment.plainNames, Option.mem_toList, name?_constValue_iff, and_comm]
      exact and_congr_right fun _ => eq_comm.trans List.mem_singleton.symm
    | union id tagId tagType arms hasDefault =>
      cases hcode
      rw [Fragment.plainNames, explicit_code, Definition.plainExprs]
      simp only [List.mem_filterMap, List.mem_map, exists_exists_and_eq_and, name?_pattern_iff, hinteger]
      constructor
      · rintro ⟨l, hl, rfl, hnone⟩
        exact ⟨hnone, hl⟩
      · rintro ⟨hnone, hl⟩
        exact ⟨x, hl, rfl, hnone⟩
    | program => cases hcode
    | typedef | struct | enum =>
      cases hcode
      exact iff_of_false List.not_mem_nil fun h => List.not_mem_nil h.2
  rw [Fragment.written, List.mem_append, hplain, hcasts, ← and_or_left]

theorem bound_of_malformed (hx : Malformed x) : t.bound x = .verbatim x := by
  obtain ⟨hnumber, hnone⟩ := hx
  rw [← integer?_of_isNumber ht hnumber] at hnone
  refine Table.bound_of_loose ⟨?_, fun v hv => by cases hnone.symm.trans hv⟩
  rw [resolve_of_isNumber ht hnumber]
  exact ne_empty_of_isNumber hnumber

/-- **A malformed number bounds a container** as it is written when the declaration has it for its bound. -/
theorem exists_container_iff (hx : Malformed x) :
    (∃ c, t.container? q base bound = some c ∧ x ∈ (c.code t).written) ↔
      Table.isBounded q base = true ∧ bound = x := by
  constructor
  · rintro ⟨c, hc, hwritten⟩
    rw [written_of_container? hc, List.mem_singleton] at hwritten
    unfold Table.container? at hc
    split_ifs at hc with hbounded
    obtain ⟨b, hb, rfl⟩ := Option.map_eq_some_iff.1 hc
    obtain rfl : x = b := hwritten
    exact ⟨hbounded, eq_of_text?_bound hx.2 hb⟩
  · rintro ⟨hbounded, rfl⟩
    have hc : t.container? q base bound = some ⟨q, base, bound⟩ := by
      rw [Table.container?, if_pos hbounded, bound_of_malformed ht hx]
      rfl
    refine ⟨_, hc, ?_⟩
    rw [written_of_container? hc]
    exact List.mem_singleton_self _

end

/-! ## All that is asked for -/

/-- the text stands as it is written in the code that is asked for -/
def Demand.Writes (t : Table) (x : String) (e : Demand) : Prop := ∃ p, e.product? t = some p ∧ x ∈ p.fragment.written

/-- the declaration has the expression for the bound of a container, or a type that is declared in it has it -/
def Decl.Holds (name x : String) (m : Decl) : Prop :=
  m.IsVariable name ∧ m.bound = x ∨ ∃ b, m.body = some b ∧ ∃ e : Definition, e.Within b ∧ x ∈ e.exprs

/-- a bound is the length of an array, or the bound of a container -/
theorem Decl.array_or_isVariable {m : Decl} (hm : m.grammatical = true) (hbound : m.bound ≠ "") (name : String) :
    m.qualifier = .array ∨ m.IsVariable name := by
  obtain ⟨id, type, q, bound, body⟩ := m
  have hvec : q = .vec → IsVariable name ⟨id, type, q, bound, body⟩ := by
    rintro rfl
    rfl
  cases body with
  | none =>
    obtain ⟨-, huse⟩ := Bool.and_eq_true_iff.1 hm
    unfold isNamedUse at huse
    split_ifs at huse with hstring
    · obtain rfl := beq_iff_eq.1 (Bool.and_eq_true_iff.1 huse).1
      exact .inr (beq_iff_eq.2 hstring)
    all_goals exact (array_or_vec_of_takes (Bool.and_eq_true_iff.1 huse).2 hbound).1.imp_right hvec
  | some b =>
    simp only [Decl.grammatical, Bool.and_eq_true] at hm
    exact (array_or_vec_of_takes hm.1.1.1.2 hbound).1.imp_right hvec

/-- a body at some depth is the definition itself, or stands in a value -/
theorem Definition.exists_within {P : Definition → Prop} {d : Definition} (hd : d.grammaticalBody = true) :
    (∃ e : Definition, e.Within d ∧ P e) ↔
      P d ∨ ∃ m ∈ d.values, ∃ b, m.body = some b ∧ ∃ e : Definition, e.Within b ∧ P e := by
  constructor
  · rintro ⟨e, he, hP⟩
    cases he with
    | self => exact .inl hP
    | body he hm hb => exact .inr ⟨_, mem_values_of_mem_decls hd hm hb, _, hb, e, he, hP⟩
  · rintro (hP | ⟨m, hm, b, hb, e, he, hP⟩)
    · exact ⟨d, .self d, hP⟩
    · exact ⟨e, .body he (mem_decls_of_mem_values hm) hb, hP⟩

theorem Definition.mem_arrayLengths {d : Definition} :
    x ∈ d.arrayLengths ↔ ∃ m ∈ d.values, m.qualifier = .array ∧ m.bound = x := by
  simp [arrayLengths, and_assoc]

/-- a definition asks for what its values ask for -/
theorem Definition.exists_writes_iff {d : Definition} (hd : d.grammaticalBody = true) (name : String)
    (h : ∀ m ∈ d.values, ∀ inner : String, m.grammatical = true →
      ((∃ e ∈ m.demandsAs t inner, e.Writes t x) ↔ m.Holds inner x)) :
    (∃ e ∈ d.demandsAs t name, e.Writes t x) ↔ ∃ m ∈ d.values, m.Holds (d.innerName name m.id) x := by
  rw [demandsAs_eq]
  constructor
  · rintro ⟨e, he, hwrites⟩
    obtain ⟨m, hm, he⟩ := List.mem_flatMap.1 he
    exact ⟨m, hm, (h m hm _ (grammatical_of_mem_values hd hm)).1 ⟨e, he, hwrites⟩⟩
  · rintro ⟨m, hm, hholds⟩
    obtain ⟨e, he, hwrites⟩ := (h m hm _ (grammatical_of_mem_values hd hm)).2 hholds
    exact ⟨e, List.mem_flatMap.2 ⟨m, hm, he⟩, hwrites⟩

section

variable (ht : t.Reachable) (hx : Malformed x)

include ht hx

/-- the container that a declaration asks for has a malformed number for its bound that the declaration has -/
theorem exists_writes_container (m : Decl) (name : String) :
    (∃ e ∈ (m.container? t name).toList.map Demand.container, e.Writes t x) ↔ m.IsVariable name ∧ m.bound = x := by
  rw [Decl.IsVariable, ← exists_container_iff ht hx]
  simp [Demand.Writes, Demand.product?, Decl.container?]

/-- the code of a definition has the malformed numbers that are no bounds of containers -/
theorem exists_written_iff (d : Definition) (name : String) :
    (∃ f, d.codeAs t name = some f ∧ x ∈ f.written) ↔
      (x ∈ d.plainExprs ∨ x ∈ d.tagValues) ∨ ∃ m ∈ d.values, m.qualifier = .array ∧ m.bound = x := by
  rw [← Definition.mem_arrayLengths, or_assoc]
  cases hcode : d.codeAs t name with
  | none =>
    cases d with
    | program =>
      simp [Definition.plainExprs, Definition.tagValues, Definition.arrayLengths, Definition.values, Definition.decls]
    | const | typedef | struct | enum | union => cases hcode
  | some f => simp [mem_written_iff ht hx.1 hcode, hx.2]

/-- the code of a definition and what its values hold make up its expressions at all depths -/
theorem Definition.exists_within_iff {d : Definition} (hd : d.grammaticalBody = true) (name : String) :
    (∃ e : Definition, e.Within d ∧ x ∈ e.exprs) ↔
      (∃ m ∈ d.values, m.Holds (d.innerName name m.id) x) ∨ ∃ f, d.codeAs t name = some f ∧ x ∈ f.written := by
  rw [exists_within hd, mem_exprs (ne_empty_of_isNumber hx.1), exists_written_iff ht hx]
  constructor
  · rintro ((hplain | ⟨m, hm, hbound⟩) | ⟨m, hm, hbody⟩)
    · exact .inr (.inl hplain)
    · have hne : m.bound ≠ "" := hbound ▸ ne_empty_of_isNumber hx.1
      have hm' := grammatical_of_mem_values hd hm
      rcases m.array_or_isVariable hm' hne (d.innerName name m.id) with harray | hvariable
      · exact .inr (.inr ⟨m, hm, harray, hbound⟩)
      · exact .inl ⟨m, hm, .inl ⟨hvariable, hbound⟩⟩
    · exact .inl ⟨m, hm, .inr hbody⟩
  · rintro (⟨m, hm, ⟨-, hbound⟩ | hbody⟩ | hplain | ⟨m, hm, -, hbound⟩)
    · exact .inl (.inr ⟨m, hm, hbound⟩)
    · exact .inr ⟨m, hm, hbody⟩
    · exact .inl (.inl hplain)
    · exact .inl (.inr ⟨m, hm, hbound⟩)

/-- **A declaration asks for code with a malformed number** exactly when it holds the number. -/
theorem Decl.exists_writes_iff (m : Decl) : ∀ name : String, m.grammatical = true →
    ((∃ e ∈ m.demandsAs t name, e.Writes t x) ↔ m.Holds name x) := by
  induction m using Decl.induction with
  | h m ih =>
    intro name hm
    cases hb : m.body with
    | none =>
      rw [demandsAs_of_named hb, exists_writes_container ht hx, Holds, hb]
      simp
    | some b =>
      have hbody := grammaticalBody_of_body hm hb
      have hinline : (∃ e ∈ [Demand.inline name b], e.Writes t x) ↔
          ∃ f, b.codeAs t name = some f ∧ x ∈ f.written := by
        simp [Demand.Writes, Demand.product?]
      have happend : ∀ es es' : List Demand, (∃ e ∈ es ++ es', e.Writes t x) ↔
          (∃ e ∈ es, e.Writes t x) ∨ ∃ e ∈ es', e.Writes t x := fun es es' => by
        simp only [List.mem_append, or_and_right, exists_or]
      rw [demandsAs_of_body hb, happend, happend, Definition.exists_writes_iff hbody name (ih b hb), hinline,
        exists_writes_container ht hx, ← Definition.exists_within_iff ht hx hbody, or_comm, Holds, hb]
      simp

end

/-! ## Every table -/

namespace Table

/-- all code that a table asks for: that of its definitions and of the types declared in them, and of containers -/
def requested (t : Table) : List Fragment := (t.demands.filterMap (Demand.product? t)).map Product.fragment

theorem mem_requested {f : Fragment} :
    f ∈ t.requested ↔ ∃ e ∈ t.demands, ∃ p, e.product? t = some p ∧ p.fragment = f := by
  simp only [requested, List.mem_map, List.mem_filterMap]
  constructor
  · rintro ⟨p, ⟨e, he, hp⟩, hf⟩
    exact ⟨e, he, p, hp, hf⟩
  · rintro ⟨e, he, p, hp, hf⟩
    exact ⟨p, ⟨e, he, hp⟩, hf⟩

/-- **The code that a table asks for has the malformed numbers that the table uses.** -/
theorem exists_requested_iff (ht : t.Reachable) (hx : Malformed x) :
    (∃ f ∈ t.requested, x ∈ f.written) ↔ t.Uses x := by
  have hrequested : (∃ f ∈ t.requested, x ∈ f.written) ↔ ∃ e ∈ t.demands, e.Writes t x := by
    constructor
    · rintro ⟨f, hf, hwritten⟩
      obtain ⟨e, he, p, hp, rfl⟩ := mem_requested.1 hf
      exact ⟨e, he, p, hp, hwritten⟩
    · rintro ⟨e, he, p, hp, hwritten⟩
      exact ⟨_, mem_requested.2 ⟨e, he, p, hp, rfl⟩, hwritten⟩
  have hdefinition : ∀ d ∈ t.definitions, (∃ e : Definition, e.Within d ∧ x ∈ e.exprs) ↔
      (∃ e ∈ d.demandsAs t d.id, e.Writes t x) ∨ (Demand.declared d).Writes t x := by
    intro d hd
    have hbody := (Bool.and_eq_true_iff.1 (ht.sound.grammatical d hd)).2
    rw [Definition.exists_within_iff ht hx hbody d.id,
      Definition.exists_writes_iff hbody d.id fun m _ => m.exists_writes_iff ht hx]
    simp [Demand.Writes, Demand.product?]
  rw [hrequested]
  constructor
  · rintro ⟨e, he, hwrites⟩
    obtain ⟨d, hd, he | rfl⟩ := mem_demands.1 he
    · exact ⟨d, hd, (hdefinition d hd).2 (.inl ⟨e, he, hwrites⟩)⟩
    · exact ⟨d, hd, (hdefinition d hd).2 (.inr hwrites)⟩
  · rintro ⟨d, hd, hexprs⟩
    rcases (hdefinition d hd).1 hexprs with ⟨e, he, hwrites⟩ | hwrites
    · exact ⟨e, mem_demands.2 ⟨d, hd, .inl he⟩, hwrites⟩
    · exact ⟨_, mem_demands.2 ⟨d, hd, .inr rfl⟩, hwrites⟩

/-- whatever is generated is asked for -/
theorem mem_requested_of_mem_emission (hd : ∀ d ∈ t.definitions, d.grammatical = true) {f : Fragment}
    (hf : f ∈ t.emission.fragments) : f ∈ t.requested := by
  obtain ⟨new, hfragments, hg⟩ := emission_answers hd
  rw [← Array.mem_toList_iff, hfragments, List.nil_append] at hf
  exact (hg.sublist.map Product.fragment).subset hf

/-- where inline types have names of their own, all code but containers is generated -/
theorem mem_emission_of_mem_requested (hd : ∀ d ∈ t.definitions, d.grammatical = true)
    (hapart : InlineApart t t.demands) {f : Fragment} (hf : f ∈ t.requested) (hcontainer : f.isContainer = false) :
    f ∈ t.emission.fragments := by
  obtain ⟨new, hfragments, hg⟩ := emission_answers hd
  obtain ⟨p, hp, rfl⟩ := List.mem_map.1 hf
  have hnew : p ∈ new.filter fun p => !p.fragment.isContainer := by
    rw [(hg.complete hapart fun _ _ => Std.HashSet.not_mem_empty).1]
    exact List.mem_filter.2 ⟨hp, by rw [hcontainer]; rfl⟩
  rw [← Array.mem_toList_iff, hfragments, List.nil_append]
  exact List.mem_map_of_mem (List.mem_filter.1 hnew).1

/-- code that is asked for is that of a definition, or a container -/
theorem codeAs_of_mem_requested {f : Fragment} (hf : f ∈ t.requested) :
    f.isContainer = true ∨ ∃ (e : Definition) (name : String), e.codeAs t name = some f := by
  obtain ⟨e, -, p, hp, rfl⟩ := mem_requested.1 hf
  cases e with
  | inline name b =>
    obtain ⟨code, hcode, rfl⟩ := Option.map_eq_some_iff.1 hp
    exact .inr ⟨b, name, hcode⟩
  | container c =>
    cases hp
    exact .inl rfl
  | declared d =>
    obtain ⟨code, hcode, rfl⟩ := Option.map_eq_some_iff.1 hp
    exact .inr ⟨d, d.id, hcode⟩

/-- what becomes of a text that stands for values in a table -/
structure Passes (t : Table) (x : String) : Prop where
  /-- what stands for a value is a number or a name, and not both -/
  value : t.Uses x ∨ t.Numbers x → isNumber x = true ∧ isName x = false ∨ isName x = true ∧ isNumber x = false
  /-- a malformed number stands in the code that is asked for exactly if it is used -/
  malformed : Malformed x → ((∃ f ∈ t.requested, x ∈ f.written) ↔ t.Uses x)
  /-- any other number may only bound a container -/
  read : ∀ f ∈ t.requested, f.isContainer = false → x ∈ f.written → isNumber x = true → Malformed x

/-- the code that is asked for is the generated code, but for inline types whose names are taken -/
structure GeneratesRequested (t : Table) : Prop where
  requested : ∀ f ∈ t.emission.fragments, f ∈ t.requested
  own : ∀ d ∈ t.definitions, ∀ f, d.codeAs t d.id = some f → f ∈ t.emission.fragments
  inline : InlineApart t t.demands → ∀ f ∈ t.requested, f.isContainer = false → f ∈ t.emission.fragments

theorem isValue_of_uses (ht : t.Reachable) (hx : t.Uses x ∨ t.Numbers x) : isValue x = true := by
  rcases hx with ⟨d, hd, e, he, hx⟩ | ⟨p, hp, hx⟩
  · have hbody := (Bool.and_eq_true_iff.1 (ht.sound.grammatical d hd)).2
    exact Definition.isValue_of_mem_exprs (grammaticalBody_of_within he hbody) hx
  · exact Program.isValue_of_mem_numbers (Bool.and_eq_true_iff.1 (ht.sound.grammatical _ hp)).2 hx

theorem Reachable.passes (ht : t.Reachable) (x : String) : t.Passes x where
  value hx := by
    cases hnumber : isNumber x with
    | true => exact .inl ⟨rfl, isName_of_isNumber hnumber⟩
    | false =>
      have hvalue := isValue_of_uses ht hx
      rw [isValue, hnumber, Bool.false_or] at hvalue
      exact .inr ⟨hvalue, rfl⟩
  malformed := exists_requested_iff ht
  read f hf hcontainer hwritten hx := by
    obtain hcode | ⟨e, name, hcode⟩ := codeAs_of_mem_requested hf
    · rw [hcontainer] at hcode
      cases hcode
    · exact ⟨hx, ((mem_written_iff ht hx hcode).1 hwritten).1⟩

theorem Reachable.generatesRequested (ht : t.Reachable) : t.GeneratesRequested where
  requested _ := mem_requested_of_mem_emission ht.sound.grammatical
  own _ hd _ := mem_emission_of_codeAs hd
  inline hapart _ := mem_emission_of_mem_requested ht.sound.grammatical hapart

end Table

/-- a schema with a text in every place where a number may stand -/
def numbered (x : String) : List Definition :=
  [.const "A" x, .enum "E" [⟨"TAG", x⟩],
    .struct "S" [⟨"a", "int", .array, x, none⟩, ⟨"v", "int", .vec, x, none⟩, ⟨"s", "string", .scalar, x, none⟩],
    .union "U" "t" "int" [⟨[x], false, .void⟩] false,
    .program ⟨"P", x, [⟨"V", x, [⟨"F", x, "void", ["void"]⟩]⟩]⟩]

theorem numbered_accepted (hx : isNumber x = true) : ∃ t : Table,
    Table.empty.addSource (schemaText (numbered x)) = (t, .ok 5) ∧ t.Reachable ∧ t.definitions.toList = numbered x := by
  have hvalue : isValue x = true := Bool.or_eq_true_iff.2 (.inl hx)
  have hnames : ∀ w ∈ ["A", "E", "TAG", "S", "a", "v", "s", "U", "t", "P", "V", "F"], isName w = true := by decide
  have htype : isTypeName "int" = true ∧ isOperand "void" = true := by decide
  simp only [List.mem_cons, List.not_mem_nil, or_false, forall_eq_or_imp, forall_eq] at hnames
  have hg : ∀ d ∈ numbered x, d.grammatical = true := by
    simp [numbered, Definition.grammatical, Definition.grammaticalBody, grammaticalFields, grammaticalArms,
      Decl.grammatical, Definition.id, EnumTag.grammatical, Program.grammatical, Version.grammatical,
      Procedure.grammatical, isNamedUse, Qualifier.takes, Primitive.idlName, isDiscriminantType, labelled,
      Decl.isNothing, Decl.void, hnames, hvalue, htype]
  have hlawful : ∀ d ∈ numbered x, ∀ e : Definition, e.Within d → e.Lawful := by
    intro d hd e he
    rw [← Definition.mem_bodies_iff] at he
    simp only [numbered, List.mem_cons, List.not_mem_nil, or_false] at hd
    rcases hd with rfl | rfl | rfl | rfl | rfl
    all_goals
      obtain rfl := List.mem_singleton.1 he
      simp [Definition.Lawful, labels, members, Decl.isVoid, Decl.void]
  have hdistinct : (numbered x).map Definition.id ++ (numbered x).flatMap Definition.enumTags =
      ["A", "E", "S", "U", "P", "TAG"] := rfl
  exact exists_table_of_acceptable hg ⟨hlawful, hdistinct ▸ by decide⟩

/-- **Every number is accepted, and a malformed one is written out.** What is scanned as one number is accepted in every
place of a schema where a value may stand; as an identifier it is a raw one. In a reachable table, what stands for a
value is a number or a name. The code that is asked for, with that of inline types and of containers, has a malformed
number in it exactly when the table uses the number at some depth; any other number it has for the bounds of containers
only. All that is generated is part of this code, and the code of every definition is generated. -/
theorem malformed_written_iff (x : String) (ht : t.Reachable) :
    (isNumber x = true ↔ ∃ stop, scan x = .ok ⟨[⟨.number x, ⟨1, 1⟩⟩], stop⟩) ∧
    (isNumber x = true → ident x = "r#" ++ x ∧ ∃ t : Table,
      Table.empty.addSource (schemaText (numbered x)) = (t, .ok 5) ∧ t.definitions.toList = numbered x) ∧
    t.Passes x ∧ t.GeneratesRequested := by
  refine ⟨isNumber_iff_scan, fun hx => ⟨ident_of_isNumber hx, ?_⟩, ht.passes x, ht.generatesRequested⟩
  obtain ⟨t, hadd, -, hds⟩ := numbered_accepted hx
  exact ⟨t, hadd, hds⟩

theorem malformed_written_iff_sample : isNumber "0x1g" = true ∧ ident "0x1g" = "r#0x1g" ∧ ∃ t : Table,
    Table.empty.addSource (schemaText (numbered "0x1g")) = (t, .ok 5) ∧ t.Reachable ∧
      ∃ f ∈ t.requested, "0x1g" ∈ f.written := by
  have hnumber : isNumber "0x1g" = true := by decide
  obtain ⟨t, hadd, ht, hds⟩ := numbered_accepted hnumber
  obtain ⟨-, hnumbers, hpasses, -⟩ := malformed_written_iff "0x1g" ht
  refine ⟨hnumber, (hnumbers hnumber).1, t, hadd, ht, (hpasses.malformed (by decide)).2 ?_⟩
  have hd : .const "A" "0x1g" ∈ t.definitions := by
    rw [← Array.mem_toList_iff, hds]
    exact List.mem_cons_self
  exact ⟨_, hd, _, .self _, List.mem_cons_self⟩

/-- a constant with a digit that is not octal behind a zero -/
def malformedSource : String := "const A = 09;"

def malformedTokens : List Token :=
  [⟨.word "const", ⟨1, 1⟩⟩, ⟨.word "A", ⟨1, 7⟩⟩, ⟨.punct .equals, ⟨1, 9⟩⟩, ⟨.number "09", ⟨1, 11⟩⟩,
    ⟨.punct .semicolon, ⟨1, 13⟩⟩]

/-- **A source is accepted with a number that is no integer literal**, and the number is generated as an identifier. -/
theorem malformed_accepted : (∃ stop, scan malformedSource = .ok ⟨malformedTokens, stop⟩) ∧
    Integer.read? "09" = none ∧ ∃ t : Table, Table.empty.addSource malformedSource = (t, .ok 1) ∧
      .const "A" "09" ∈ t.definitions ∧ ∃ f ∈ t.emission.fragments, f.text = "pub const A: i32 = r#09;\n" := by
  have hscan : scan malformedSource = .ok ⟨malformedTokens, ⟨1, 14⟩⟩ := by cbv
  have hparse : Grammar.parse malformedTokens = .ok [.const "A" "09"] := by cbv
  obtain ⟨t, hadd, ht, hds⟩ := exists_table_of_parse (Table.bind_parse_of_scan hscan hparse) (by decide)
  have hd : .const "A" "09" ∈ t.definitions := by
    rw [← Array.mem_toList_iff, hds]
    exact List.mem_cons_self
  have htype : t.constType "09" = .integer .i32 := by
    have hnumber : isNumber "09" = true := by decide
    have hinteger : t.integer? "09" = none := (integer?_of_isNumber ht hnumber).trans (by decide)
    rw [Table.constType, hinteger, resolve_of_isNumber ht hnumber, enumOf?_of_isNumber ht hnumber]
  refine ⟨⟨_, hscan⟩, by decide, t, hadd, hd, _, mem_emission_of_codeAs hd rfl, ?_⟩
  rw [htype]
  decide +kernel

end Xdr
