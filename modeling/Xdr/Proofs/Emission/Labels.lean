/-
Labels that generated code does not know.

A label that resolves to no integer is written as an identifier. Nothing in the front end asks what it names: a label is
any number or name. Generated code knows the truth values, the constants and the enum tags; another identifier may bind
in a pattern, and then it matches every discriminant. The identifier is not always the label as it stands: words that no
mark makes an identifier get an underscore, and keywords and malformed numbers a mark.
- `ident_eq_spelled`: how a label is written as an identifier.
- `spells_ident_iff`: the identifier is that of a known name when the label is known, or the twin of a known name.
- `knownPatterns_iff`: the identifiers among the patterns of a union are known exactly when each of its labels is an
  integer literal, a known name or the twin of one.
- `selection_of_binds`: an arm with an identifier that binds is open at every discriminant.
- `patterns_known_iff_labels_known`: all of it for every union of a reachable table.
- `unknownUnion_accepted`: a union that is accepted and has such an arm.
-/
import Xdr.Proofs.Emission.Exclusive
import Xdr.Proofs.Emission.Malformed
import Xdr.Proofs.Emission.MemberNames
import Xdr.Proofs.Table.Listed

namespace Xdr

open Code Text

variable {t : Table} {enum : Option String} {l name : String}

/-! ## Labels as identifiers -/

/-- a name or a number of a schema as an identifier: `self`, `Self`, `super` and `crate` get an underscore, the other
keywords, `gen` and numbers the mark of a raw identifier, and any other name stays as it is -/
def spelled (l : String) : String :=
  if l ∈ underscoredWords then l ++ "_"
  else if l ∈ keywords ∨ l = "gen" ∨ isNumber l = true then "r#" ++ l
  else l

/-- a schema writes its names in ASCII, where the letters of Rust are those of a schema -/
theorem isLetterTail_of_isWordChar {c : Char} (h : isWordChar c = true) : isLetterTail c = true := by
  have hc := toNat_of_isWordChar h
  rw [isLetterTail, if_pos (by omega)]
  exact h

theorem isSpace_eq_false_of_isWordChar {c : Char} (h : isWordChar c = true) : isSpace c = false := by
  have hblank := isBlank_eq_false_of_isWordChar h
  have hmarks : c ≠ '\u200e' ∧ c ≠ '\u200f' := by
    constructor <;> rintro rfl <;> exact absurd h (by decide)
  simp [isSpace, hblank, hmarks]

/-- a name is a word of Rust, and one identifier unless it is a keyword -/
theorem isIdentifier_of_isName (hl : isName l = true) : isIdentifier l = !keywords.contains l := by
  have hword := (Bool.and_eq_true_iff.1 hl).1
  have hchars := isWordChar_of_isName hl
  have hmark := mark_not_mem hl
  unfold isWord at hword
  cases hcs : l.toList with
  | nil => simp [hcs] at hword
  | cons c r =>
    rw [hcs] at hword hchars hmark
    rw [List.forall_mem_cons] at hchars
    obtain ⟨hc, hr⟩ := hchars
    have hletter : (isLetter c || c = '_') = true := by
      rw [isLetter, if_pos (by have := toNat_of_isWordChar hc; omega)]
      exact (Bool.and_eq_true_iff.1 hword).1
    have hfirst : c ≠ '\ufeff' ∧ c ≠ '/' := by
      constructor <;> rintro rfl <;> exact absurd hc (by decide)
    have hskip : skipSpace .outside (c :: r) = some (c :: r) := by
      cases r <;> simp [skipSpace, isSpace_eq_false_of_isWordChar hc, isLineComment, isBlockComment, hfirst]
    have htail : ∀ d ∈ r, isLetterTail d = true := fun d hd => isLetterTail_of_isWordChar (hr d hd)
    have hwhole : word? (c :: r) = some (l, []) := by
      rw [word?, if_pos hletter, List.takeWhile_eq_self_iff.2 htail, List.dropWhile_eq_nil_iff.2 htail, ← hcs,
        String.ofList_toList]
    have hidentifier : identifier? (c :: r) = (some (l, [])).filter fun w => !keywords.contains w.1 := by
      rw [identifier?, hwhole]
      intro r' hraw
      rw [hraw] at hmark
      simp at hmark
    by_cases hkeyword : l ∈ keywords
    · simp [isIdentifier, hcs, hfirst, hskip, hidentifier, hkeyword, Option.filter]
    · simp [isIdentifier, hcs, hfirst, hskip, hidentifier, hkeyword, Option.filter, skipSpace]

/-- **How a label is written as an identifier.** -/
theorem ident_eq_spelled (hl : isValue l = true) : ident l = spelled l := by
  unfold spelled
  by_cases hword : l ∈ underscoredWords
  · rw [if_pos hword, (ident_of_underscored hword).1]
  rw [if_neg hword]
  rcases Bool.or_eq_true_iff.1 hl with hnumber | hname
  · rw [if_pos (.inr (.inr hnumber)), ident_of_isNumber hnumber]
  have hnumber : ¬ isNumber l = true := by
    intro h
    rw [isName_of_isNumber h] at hname
    cases hname
  have hcontains : underscoredWords.contains l = false := by simpa using hword
  change (if underscoredWords.contains l = true then l ++ "_" else if l = "gen" then "r#" ++ l
    else if isIdentifier l = true then l else "r#" ++ l) = _
  rw [hcontains, isIdentifier_of_isName hname]
  by_cases hgen : l = "gen" <;> by_cases hkeyword : l ∈ keywords <;> simp [hgen, hkeyword, hnumber]

example : ["FOO", "self", "super", "type", "gen", "_", "09"].map spelled =
    ["FOO", "self_", "super_", "r#type", "r#gen", "r#_", "r#09"] := by decide

/-! ## Known names -/

/-- the name of a truth value, of a constant or of an enum tag -/
def Table.Knows (t : Table) (name : String) : Prop :=
  name = "TRUE" ∨ name = "FALSE" ∨ (∃ id value, t.get? name = some (.const id value)) ∨
    (t.enumOf? name).isSome = true

/-- the identifier that generated code has for a known name -/
def Table.Spells (t : Table) (text : String) : Prop := ∃ name, t.Knows name ∧ ident name = text

/-- a known name, or a name that is written as one -/
def Table.KnowsLike (t : Table) (l : String) : Prop := t.Knows l ∨ ∃ name, t.Knows name ∧ (Twins l name ∨ Twins name l)

theorem Table.Reachable.isName_of_knows (ht : t.Reachable) (h : t.Knows name) : isName name = true := by
  rcases h with rfl | rfl | ⟨id, value, hconst⟩ | htag
  · decide
  · decide
  · obtain ⟨hd, hid⟩ := ht.get?_eq_some hconst
    exact hid ▸ (Bool.and_eq_true_iff.1 (ht.sound.grammatical _ hd)).1
  · obtain ⟨e, he⟩ := Option.isSome_iff_exists.1 htag
    exact ht.isName_of_enumOf? he

/-- no name is written as a number is -/
theorem ident_ne_of_isNumber (hl : isNumber l = true) (hname : isName name = true) : ident name ≠ ident l := by
  rw [ident_of_isNumber hl]
  rcases ident_cases name with ⟨-, hident⟩ | hident | hident <;> rw [hident]
  · exact (raw_ne hname).2.symm
  · intro h
    have hsame : name = l := (String.append_right_inj _).1 h
    rw [hsame, isName_of_isNumber hl] at hname
    cases hname
  · exact (raw_ne hname).1.symm

/-- a label is written as a known name when it is one, or the twin of one -/
theorem spells_ident_iff (ht : t.Reachable) (hl : isValue l = true) : t.Spells (ident l) ↔ t.KnowsLike l := by
  constructor
  · rintro ⟨name, hknown, hident⟩
    have hname := ht.isName_of_knows hknown
    rcases Bool.or_eq_true_iff.1 hl with hnumber | hlabel
    · exact absurd hident (ident_ne_of_isNumber hnumber hname)
    · rcases (ident_eq_iff_twins hname hlabel).1 hident with rfl | htwins | htwins
      · exact .inl hknown
      · exact .inr ⟨name, hknown, .inr htwins⟩
      · exact .inr ⟨name, hknown, .inl htwins⟩
  · rintro (hknown | ⟨name, hknown, htwins | htwins⟩)
    · exact ⟨l, hknown, rfl⟩
    · exact ⟨name, hknown, (ident_eq_of_twins htwins).symm⟩
    · exact ⟨name, hknown, ident_eq_of_twins htwins⟩

/-! ## Patterns of labels -/

/-- a pattern that is no identifier, or the identifier of a known name -/
def Code.Pattern.Known (t : Table) (p : Pattern) : Prop := p.name?.isSome = true → t.Spells p.text

theorem name?_pattern : (t.pattern enum l).name? = if t.integer? l = none then some l else none := by
  unfold Table.pattern
  cases t.integer? l with
  | none => rfl
  | some v => cases enum <;> rfl

theorem text_pattern (h : t.integer? l = none) : (t.pattern enum l).text = ident l := by
  rw [pattern_eq_name_iff.2 ⟨rfl, h⟩]
  rfl

/-- the integer of a label that is not known is that of a literal -/
theorem integer?_of_not_knows (h : ¬ t.Knows l) : t.integer? l = Integer.read? l :=
  integer?_of_not_const fun id value hconst => h (.inr (.inr (.inl ⟨id, value, hconst⟩)))

theorem read?_of_integer?_eq_none (ht : t.Reachable) (hl : isValue l = true) (h : t.integer? l = none) :
    Integer.read? l = none := by
  rcases Bool.or_eq_true_iff.1 hl with hnumber | hname
  · rw [← integer?_of_isNumber ht hnumber, h]
  · exact read?_of_isName hname

/-- the pattern of a label is known when the label is an integer literal or written as a known name; what the constants
behind a known label end in does not matter -/
theorem known_pattern_iff (ht : t.Reachable) (hl : isValue l = true) :
    (t.pattern enum l).Known t ↔ (Integer.read? l).isSome = true ∨ t.KnowsLike l := by
  rw [Pattern.Known, name?_pattern]
  by_cases h : t.integer? l = none
  · simp [h, text_pattern h, spells_ident_iff ht hl, read?_of_integer?_eq_none ht hl h]
  · refine iff_of_true (by simp [h]) ?_
    by_cases hknown : t.Knows l
    · exact .inr (.inl hknown)
    · left
      rwa [← integer?_of_not_knows hknown, Option.isSome_iff_ne_none]

/-! ## Patterns of a union -/

section

variable {u : UnionCode} {id tagId tagType : String} {arms : List Arm} {hasDefault : Bool}

/-- every pattern of the code is known -/
def Code.UnionCode.KnownPatterns (u : UnionCode) (t : Table) : Prop := ∀ a ∈ u.arms, ∀ p ∈ a.patterns, p.Known t

/-- every label is an integer literal, or written as a known name -/
def KnownLabels (t : Table) (arms : List Arm) : Prop :=
  ∀ a ∈ arms, ∀ l ∈ a.cases, (Integer.read? l).isSome = true ∨ t.KnowsLike l

theorem map_patterns_arms (hu : u.IsCodeOf t (.union id tagId tagType arms hasDefault)) :
    u.arms.map UnionArm.patterns = arms.map fun a => a.cases.map (t.pattern (t.enumType? tagType)) := by
  obtain ⟨-, -, -, hshape⟩ := hu
  simpa [UnionArm.shape, Arm.shape, Function.comp_def] using congrArg (List.map Prod.fst) hshape

theorem map_texts_arms (hu : u.IsCodeOf t (.union id tagId tagType arms hasDefault)) :
    u.arms.map (fun a => a.patterns.map Pattern.text) =
      arms.map fun a => a.cases.map fun l => (t.pattern (t.enumType? tagType) l).text := by
  have hpatterns := congrArg (List.map (List.map Pattern.text)) (map_patterns_arms hu)
  simpa [Function.comp_def] using hpatterns

/-- labels are numbers or names -/
theorem isValue_of_mem_cases (h : (Definition.union id tagId tagType arms hasDefault).grammaticalBody = true) {a : Arm}
    (ha : a ∈ arms) (hl : l ∈ a.cases) : isValue l = true := by
  simp only [Definition.grammaticalBody, Bool.and_eq_true] at h
  have harm := grammaticalArms_iff.1 h.2 a ha
  simp only [Arm.grammatical, labelled, Bool.and_eq_true] at harm
  obtain ⟨hcases, -⟩ := harm
  split_ifs at hcases with hd
  · rw [List.isEmpty_iff.1 hcases] at hl
    cases hl
  · simp only [Bool.and_eq_true, List.all_eq_true] at hcases
    exact hcases.2 l hl

theorem knownPatterns_iff (ht : t.Reachable)
    (hbody : (Definition.union id tagId tagType arms hasDefault).grammaticalBody = true)
    (hu : u.IsCodeOf t (.union id tagId tagType arms hasDefault)) : u.KnownPatterns t ↔ KnownLabels t arms := by
  have hlists : u.KnownPatterns t ↔ ∀ ps ∈ u.arms.map UnionArm.patterns, ∀ p ∈ ps, p.Known t := by
    rw [List.forall_mem_map]
    rfl
  rw [hlists, map_patterns_arms hu, List.forall_mem_map]
  refine forall₂_congr fun a ha => ?_
  rw [List.forall_mem_map]
  exact forall₂_congr fun l hl => known_pattern_iff ht (isValue_of_mem_cases hbody ha hl)

/-! ## Identifiers that bind -/

variable {Tag : Type} {a : UnionArm} {p : Pattern}

/-- a pattern that binds matches every discriminant: the accessor of its arm always lets through, every discriminant is
valid, and the accessor of a default arm never lets through -/
theorem selection_of_binds (reads : Pattern → Tag → Bool) (hu : u.Proper) (ha : a ∈ u.arms)
    (hd : a.isDefault = false) (hp : p ∈ a.patterns) (hbinds : ∀ v, reads p v = true) (v : Tag) :
    (∀ m, a.payload = some m → (u.selection reads).admits m.name v = true) ∧ (u.selection reads).valid v = true ∧
      ∀ b ∈ u.arms, b.isDefault = true → ∀ m, b.payload = some m → (u.selection reads).admits m.name v = false := by
  have hmatch : anyMatches reads a.patterns v = true := List.any_eq_true.2 ⟨p, hp, hbinds v⟩
  refine ⟨?_, ?_, ?_⟩
  · intro m hm
    rwa [UnionCode.admits_eq hu ha hm, UnionCode.guard_explicit_admits hd]
  · exact (UnionCode.validity_admits_iff hu).2 (.inr ⟨a, ha, hd, hmatch⟩)
  · intro b hb hbd m hm
    rw [UnionCode.admits_eq hu hb hm, Bool.eq_false_iff]
    intro hadmits
    have hnone := (UnionCode.guard_default_admits hb hbd).1 hadmits a ha hd
    rw [hmatch] at hnone
    cases hnone

end

/-! ## The labels of every union -/

/-- what becomes of a label of a union on an enum or on none: it is a number or a name, which an identifier is written
for exactly when its constants end in no integer -/
structure Table.Writes (t : Table) (enum : Option String) (l : String) : Prop where
  value : isValue l = true
  name : (t.pattern enum l).name? = if t.integer? l = none then some l else none
  text : t.integer? l = none → (t.pattern enum l).text = spelled l
  known : t.Spells (spelled l) ↔ t.KnowsLike l

theorem Table.Reachable.writes (ht : t.Reachable) (hl : isValue l = true) : t.Writes enum l where
  value := hl
  name := name?_pattern
  text h := (text_pattern h).trans (ident_eq_spelled hl)
  known := by rw [← ident_eq_spelled hl, spells_ident_iff ht hl]

/-- **The identifiers among the patterns of a union are known where its labels are.** For a union at any depth of a
definition in a reachable table, generated under any name and in any state: a label, which is a number or a name, becomes
an identifier exactly when its constants end in no integer. It is written as it stands, but `self`, `Self`, `super` and
`crate` get an underscore, and the other keywords, `gen` and malformed numbers the mark of a raw identifier. Every
identifier among the patterns is that of a truth value, a constant or an enum tag exactly when every label is an integer
literal, one of these, or the twin of one of these. Patterns are read by their texts: an identifier that binds leaves its
arm open at every discriminant, makes every discriminant valid, and closes a default arm for good. -/
theorem patterns_known_iff_labels_known {t : Table} (ht : t.Reachable) {d : Definition} (hd : d ∈ t.definitions)
    {id tagId tagType : String} {arms : List Arm} {hasDefault : Bool}
    (hu : (Definition.union id tagId tagType arms hasDefault).Within d) (name : String) (s : Emission) :
    ∃ u : UnionCode,
      ((Definition.union id tagId tagType arms hasDefault).emitAs t name s).2.fragments.back? = some (.union u) ∧
      u.IsCodeOf t (.union id tagId tagType arms hasDefault) ∧
      (∀ a ∈ arms, ∀ l ∈ a.cases, t.Writes (t.enumType? tagType) l) ∧
      (u.KnownPatterns t ↔ KnownLabels t arms) ∧
      ∀ a ∈ u.arms, a.isDefault = false → ∀ p ∈ a.patterns,
        ∀ {Tag : Type} (reads : String → Tag → Bool), (∀ v, reads p.text v = true) → ∀ v,
          (∀ m, a.payload = some m → (u.selection fun p v => reads p.text v).admits m.name v = true) ∧
          (u.selection fun p v => reads p.text v).valid v = true ∧
          ∀ b ∈ u.arms, b.isDefault = true → ∀ m, b.payload = some m →
            (u.selection fun p v => reads p.text v).admits m.name v = false := by
  obtain ⟨u, -, hcode, hfragments⟩ := emitAs_union t name id tagId tagType arms hasDefault s
  have hproper := proper_of_within ht hd hu hcode
  have hbody := grammaticalBody_of_within hu (Bool.and_eq_true_iff.1 (ht.sound.grammatical d hd)).2
  refine ⟨u, by rw [hfragments, Array.back?_push], hcode, ?_, knownPatterns_iff ht hbody hcode, ?_⟩
  · intro a ha l hl
    exact ht.writes (isValue_of_mem_cases hbody ha hl)
  · intro a ha hexplicit p hp Tag reads hbinds v
    exact selection_of_binds (fun p v => reads p.text v) hproper ha hexplicit hp hbinds v

/-- a union with a label that nothing defines and that is written as a constant -/
def twinArms : List Arm := [⟨["self"], false, ⟨"a", "int", .scalar, "", none⟩⟩]

def twinLabelled : List Definition := [.const "self_" "1", .union "U" "t" "int" twinArms false]

theorem patterns_known_iff_labels_known_sample : ∃ t, Table.empty.addSource (schemaText twinLabelled) = (t, .ok 2) ∧
    t.Reachable ∧ ¬ t.Knows "self" ∧ ∃ u : UnionCode,
      ((Definition.union "U" "t" "int" twinArms false).emitAs t "U" {}).2.fragments.back? = some (.union u) ∧
      u.arms.map (fun a => a.patterns.map Pattern.text) = [["self_"]] ∧ u.KnownPatterns t := by
  have hg : ∀ d ∈ twinLabelled, d.grammatical = true := by decide
  obtain ⟨t, hadd, ht, hds⟩ := exists_table_of_acceptable hg (by decide)
  have hd : ∀ d ∈ twinLabelled, d ∈ t.definitions := fun d hd => Array.mem_toList_iff.1 (hds ▸ hd)
  have hconst : t.get? "self_" = some (.const "self_" "1") := ht.get?_eq_find? hds _
  have hself : t.get? "self" = none := ht.get?_eq_find? hds _
  have htag : t.enumOf? "self" = none := ht.enumOf?_eq_find? hds _
  have hunknown : ¬ t.Knows "self" := by simp [Table.Knows, hself, htag]
  have hinteger : t.integer? "self" = none := by
    rw [integer?_of_not_knows hunknown]
    decide
  obtain ⟨u, hu, hcode, hwrites, hknown, -⟩ :=
    patterns_known_iff_labels_known ht (hd _ (List.mem_cons_of_mem _ List.mem_cons_self)) (.self _) "U" {}
  refine ⟨t, hadd, ht, hunknown, u, hu, ?_, hknown.2 ?_⟩
  · have htext := (hwrites _ List.mem_cons_self "self" List.mem_cons_self).text hinteger
    rw [map_texts_arms hcode]
    exact congrArg (fun text => [[text]]) htext
  · intro a ha l hl
    obtain rfl := List.mem_singleton.1 ha
    obtain rfl := List.mem_singleton.1 hl
    have hknows : t.Knows "self_" := .inr (.inr (.inl ⟨_, _, hconst⟩))
    exact .inr (.inr ⟨"self_", hknows, .inl ⟨by decide, rfl⟩⟩)

/-- a union with a label that nothing defines -/
def unknownArms : List Arm :=
  [⟨["FOO"], false, ⟨"a", "int", .scalar, "", none⟩⟩, ⟨["1"], false, ⟨"b", "int", .scalar, "", none⟩⟩]

def unknownUnion : Definition := .union "U" "t" "int" unknownArms false

/-- **A union is accepted, one of its patterns is an identifier that nothing defines, and where that binds every
discriminant is valid and the accessor of its arm lets through at every one.** -/
theorem unknownUnion_accepted : ∃ t, Table.empty.addSource (schemaText [unknownUnion]) = (t, .ok 1) ∧
    ¬ t.Spells "FOO" ∧ ∃ u : UnionCode,
      (unknownUnion.emitAs t "U" {}).2.fragments.back? = some (.union u) ∧
      u.arms.map (fun a => a.patterns.map Pattern.text) = [["FOO"], ["1"]] ∧
      ∀ (reads : String → Int32 → Bool), (∀ v, reads "FOO" v = true) → ∀ v,
        (u.selection fun p v => reads p.text v).admits "a" v = true ∧
        (u.selection fun p v => reads p.text v).valid v = true := by
  have hg : ∀ d ∈ [unknownUnion], d.grammatical = true := by decide
  obtain ⟨t, hadd, ht, hds⟩ := exists_table_of_acceptable hg (by decide)
  have hfoo : t.get? "FOO" = none := ht.get?_eq_find? hds _
  have htag : t.enumOf? "FOO" = none := ht.enumOf?_eq_find? hds _
  have hunknown : ¬ t.Knows "FOO" := by simp [Table.Knows, hfoo, htag]
  have htexts : Pattern.text (.name "FOO") = "FOO" ∧ Pattern.text (.literal "1") = "1" :=
    ⟨ident_eq_spelled (by decide), by decide⟩
  have hspells : ¬ t.Spells (ident "FOO") := by
    rw [spells_ident_iff ht (by decide)]
    rintro (hknown | ⟨name, -, ⟨hword, -⟩ | ⟨hword, htwin⟩⟩)
    · exact hunknown hknown
    · exact absurd hword (by decide)
    · revert name
      decide
  obtain ⟨u, -, hcode, hfragments⟩ := emitAs_union t "U" "U" "t" "int" unknownArms false {}
  have hproper := proper_of_isCodeOf (by decide) rfl hcode
  have hshape : u.arms.map UnionArm.shape =
      [([.name "FOO"], false, some "a"), ([.literal "1"], false, some "b")] := by
    have hread : Integer.read? "FOO" = none ∧ Integer.read? "1" = some 1 := by decide
    have henum : t.enumType? "int" = none := by
      rw [Table.enumType?, ht.chase_eq_listed hds, ht.get?_eq_find? hds]
      rfl
    have hone : isNumber "1" = true := by decide
    rw [hcode.2.2.2, henum]
    simp [unknownArms, Arm.shape, Table.pattern, integer?_of_not_knows hunknown, integer?_of_isNumber ht hone,
      resolve_of_isNumber ht hone, hread, Decl.isVoid, Primitive.idlName]
  refine ⟨t, hadd, htexts.1 ▸ hspells, u, ?_, ?_, ?_⟩
  · exact (congrArg Array.back? hfragments).trans Array.back?_push
  · simpa [UnionArm.shape, Function.comp_def, htexts] using congrArg (List.map fun s => s.1.map Pattern.text) hshape
  · intro reads hbinds v
    have hfirst : ([.name "FOO"], false, some "a") ∈ u.arms.map UnionArm.shape := by
      rw [hshape]
      exact List.mem_cons_self
    obtain ⟨a, ha, hab⟩ := List.mem_map.1 hfirst
    simp only [UnionArm.shape, Prod.mk.injEq, Option.map_eq_some_iff] at hab
    obtain ⟨hpatterns, hd, m, hm, hname⟩ := hab
    have hbinds : ∀ v, reads (Pattern.text (.name "FOO")) v = true := htexts.1.symm ▸ hbinds
    have hfoo : .name "FOO" ∈ a.patterns := by simp [hpatterns]
    have hopen := selection_of_binds (fun p v => reads p.text v) hproper ha hd hfoo hbinds v
    exact ⟨hname ▸ hopen.1 m hm, hopen.2.1⟩

end Xdr
