/-
Numbers of enum tags, and the labels that are meant to select them.

A value may be any integer that a literal can write; an enum has 32 bits. The number of a tag is the value cut to 32
bits, and nothing tells whether that lost a part of it. A label under an enum keeps its value as it is.
- `wrap32_eq_self_iff`, `standsFor_wrap32_iff`, `wrap32_eq_wrap32_iff`: what the cut keeps.
- `label_matches_tag_iff`: a label and a tag of one value agree exactly when the value is a signed number of 32 bits.
- `unmatched_accepted`: a schema that is accepted and has a label that misses its tag.
- `tags_kept_iff_words`: the tags of an enum keep their values exactly when these are words.
- `cut_accepted`: a schema that is accepted and has two values in one number.
-/
import Xdr.Code.Reading
import Xdr.Proofs.Emission.Constants
import Xdr.Proofs.Table.Listed

namespace Xdr

open Code

/-! ## Numbers of 32 bits -/

/-- a number of 32 bits, signed or not -/
def IsWord (n : Int) : Prop := IntType.i32.least ≤ n ∧ n ≤ IntType.u32.greatest

instance (n : Int) : Decidable (IsWord n) := inferInstanceAs (Decidable (_ ∧ _))

/-- the signed number `m` is written for `n`: it is `n`, or it has the word of an `n` that only unsigned numbers reach -/
def StandsFor (m n : Int) : Prop :=
  m = n ∨ IntType.i32.greatest < n ∧ n ≤ IntType.u32.greatest ∧ m = n - 0x100000000

namespace Table

variable {n m : Int}

theorem wrap32_eq (n : Int) : wrap32 n =
    if n % 0x100000000 < 0x80000000 then n % 0x100000000 else n % 0x100000000 - 0x100000000 :=
  Int.bmod_def n 0x100000000

theorem holds_i32_iff : IntType.i32.holds n = true ↔ -0x80000000 ≤ n ∧ n ≤ 0x7FFFFFFF := by
  rw [IntType.holds, Bool.and_eq_true, decide_eq_true_iff, decide_eq_true_iff]
  rfl

theorem holds_wrap32 (n : Int) : IntType.i32.holds (wrap32 n) = true := by
  rw [holds_i32_iff, wrap32_eq]
  split_ifs <;> omega

/-- nothing but multiples of the size is lost -/
theorem dvd_sub_wrap32 (n : Int) : 0x100000000 ∣ n - wrap32 n := by
  rw [wrap32_eq]
  split_ifs <;> omega

theorem wrap32_eq_self_iff : wrap32 n = n ↔ IntType.i32.holds n = true := by
  rw [holds_i32_iff, wrap32_eq]
  split_ifs <;> omega

theorem standsFor_wrap32_iff : StandsFor (wrap32 n) n ↔ IsWord n := by
  simp only [StandsFor, IsWord, wrap32_eq, IntType.least, IntType.greatest]
  split_ifs <;> omega

theorem wrap32_eq_wrap32_iff : wrap32 n = wrap32 m ↔ 0x100000000 ∣ n - m := by
  rw [wrap32_eq, wrap32_eq]
  split_ifs <;> omega

end Table

/-! ## Labels under an enum -/

/-- a constant with a literal for its value stands for that number -/
theorem integer?_of_const {t : Table} (ht : t.Reachable) {x value : String} (hd : .const x value ∈ t.definitions)
    (hvalue : isName value = false) : t.integer? x = Integer.read? value := by
  have hstep : t.Constant x value := (Table.constant_iff ht).2 hd
  have hend : (t.get? value).bind Definition.constValue? = none := by rw [ht.get?_eq_none hvalue, Option.bind_none]
  rw [Table.integer?, Table.resolve, ht.indexed.chase_eq_end (.single hstep) hend]

/-- **A label selects its tag where the value is a signed number of 32 bits.** In any table, for an expression that
resolves to an integer: a tag of that value has a number that differs from it by a multiple of the size, and the pattern
of the label keeps the value. The two agree, and the pattern matches exactly the values that are equal to the tag, when
the value is one that the number can be; no other pattern matches anything. -/
theorem label_matches_tag_iff (t : Table) {x : String} {n : Int} (hx : t.integer? x = some n) (e : EnumType) :
    ∃ m, t.tagValue x = .number m ∧ IntType.i32.holds m = true ∧ 0x100000000 ∣ n - m ∧
      t.pattern (some e.name) x = .tagged e.name n ∧ (n = m ↔ IntType.i32.holds n = true) ∧
      (∀ v : EnumValue e, reads (t.pattern (some e.name) x) v = true ↔ v.code.toInt = n) ∧
      ((∀ v : EnumValue e, reads (t.pattern (some e.name) x) v = true ↔ v.code.toInt = m) ↔
        IntType.i32.holds n = true) := by
  have htag : t.tagValue x = .number (Table.wrap32 n) := by rw [Table.tagValue, hx]
  have hpattern : t.pattern (some e.name) x = .tagged e.name n := by
    unfold Table.pattern
    rw [hx]
  have hreads : ∀ v : EnumValue e, reads (t.pattern (some e.name) x) v = true ↔ v.code.toInt = n := by
    intro v
    rw [hpattern]
    change (e.name == e.name && n == v.code.toInt) = true ↔ v.code.toInt = n
    rw [beq_self_eq_true, Bool.true_and, beq_iff_eq, eq_comm]
  have hself : n = Table.wrap32 n ↔ IntType.i32.holds n = true := eq_comm.trans Table.wrap32_eq_self_iff
  refine ⟨Table.wrap32 n, htag, Table.holds_wrap32 n, Table.dvd_sub_wrap32 n, hpattern, hself, hreads, ?_⟩
  constructor
  · intro hall
    obtain ⟨hleast, hgreatest⟩ := Table.holds_i32_iff.1 (Table.holds_wrap32 n)
    -- the number of the tag is a value of the enum
    have hcode : (Int32.ofInt (Table.wrap32 n)).toInt = Table.wrap32 n :=
      Int32.toInt_ofInt_of_le hleast (Int.lt_of_le_of_lt hgreatest (by decide))
    have hmatch := (hall ⟨Int32.ofInt (Table.wrap32 n)⟩).2 hcode
    exact hself.1 (((hreads _).1 hmatch).symm.trans hcode)
  · intro hholds v
    rw [← hself.2 hholds]
    exact hreads v

/-- a constant, with a tag and a label of its value -/
def baseSchema : List Definition :=
  [.const "BASE" "0x10", .enum "E" [⟨"A", "BASE"⟩],
    .union "U" "e" "E" [⟨["BASE"], false, ⟨"a", "int", .scalar, "", none⟩⟩] false]

theorem label_matches_tag_iff_sample : ∃ t, Table.empty.addSource (schemaText baseSchema) = (t, .ok 3) ∧
    t.integer? "BASE" = some 16 ∧ t.tagValue "BASE" = .number 16 ∧
    ∀ (e : EnumType) (v : EnumValue e), reads (t.pattern (some e.name) "BASE") v = true ↔ v.code.toInt = 16 := by
  have hg : ∀ d ∈ baseSchema, d.grammatical = true := by decide
  obtain ⟨t, hadd, ht, hds⟩ := exists_table_of_acceptable hg (by decide)
  have hd : .const "BASE" "0x10" ∈ t.definitions := by
    rw [← Array.mem_toList_iff, hds]
    exact List.mem_cons_self
  have hbase : t.integer? "BASE" = some 16 := by
    rw [integer?_of_const ht hd (by decide)]
    decide
  refine ⟨t, hadd, hbase, ?_, fun e v => ?_⟩
  · obtain ⟨m, hm, -, -, -, hself, -⟩ := label_matches_tag_iff t hbase ⟨"E", []⟩
    rw [hm, ← hself.2 (by decide)]
  · obtain ⟨m, -, -, -, -, -, hreads, -⟩ := label_matches_tag_iff t hbase e
    exact hreads v

/-- a tag and a label of one value, the greatest that 32 bits can have -/
def wideSchema : List Definition :=
  [.enum "E" [⟨"C", "0xffffffff"⟩],
    .union "U" "e" "E" [⟨["0xffffffff"], false, ⟨"a", "int", .scalar, "", none⟩⟩] false]

/-- **A schema is accepted in which a label resolves to the value of a tag and does not select it:** the tag is `-1`, and
the pattern of the label matches no value. -/
theorem unmatched_accepted : ∃ t, Table.empty.addSource (schemaText wideSchema) = (t, .ok 2) ∧
    t.integer? "0xffffffff" = some 0xFFFFFFFF ∧ t.enumType? "E" = some "E" ∧
    .enum "E" [⟨"C", .number (-1)⟩] ∈ t.emission.fragments ∧
    .union ⟨"U", "e", "E", [⟨[.tagged "E" 0xFFFFFFFF], false, some ⟨"a", .named "int"⟩⟩], false⟩ ∈
      t.emission.fragments ∧
    ∀ (e : EnumType) (v : EnumValue e), reads (.tagged "E" 0xFFFFFFFF) v = false := by
  have hg : ∀ d ∈ wideSchema, d.grammatical = true := by decide
  obtain ⟨t, hadd, ht, hds⟩ := exists_table_of_acceptable hg (by decide)
  have hmem : ∀ d ∈ wideSchema, d ∈ t.definitions := fun d hd => Array.mem_toList_iff.1 (hds ▸ hd)
  have henum : .enum "E" [⟨"C", "0xffffffff"⟩] ∈ t.definitions := hmem _ List.mem_cons_self
  have hvalue : t.integer? "0xffffffff" = some 0xFFFFFFFF := by
    rw [integer?_of_not_name ht (by decide)]
    decide
  have htype : t.enumType? "E" = some "E" := by
    rw [Table.enumType?, ht.chase_eq_listed hds, ht.get?_eq_find? hds]
    rfl
  refine ⟨t, hadd, hvalue, htype, ?_, ?_, fun e v => ?_⟩
  · refine mem_emission_of_codeAs henum ?_
    simp [Definition.codeAs, Definition.id, Table.tagValue, hvalue, Table.wrap32_eq]
  · refine mem_emission_of_codeAs (hmem _ (List.mem_cons_of_mem _ List.mem_cons_self)) ?_
    simp [Definition.codeAs, Definition.id, Arm.code, Decl.member, Decl.typeExpr, Decl.baseName, Table.typeExpr,
      Table.container?, Table.isBounded, Table.container, Table.pattern, Decl.isVoid, Primitive.idlName, hvalue, htype]
  · have hless := Int32.toInt_lt v.code
    have hne : (0xFFFFFFFF == v.code.toInt) = false := by
      rw [beq_eq_false_iff_ne]
      omega
    change ("E" == e.name && 0xFFFFFFFF == v.code.toInt) = false
    rw [hne, Bool.and_false]

/-! ## Tags of an enum -/

/-- every tag whose value resolves is generated with a number that is written for it -/
def TagsKept (t : Table) (tags : List EnumTag) (members : List EnumMember) : Prop :=
  ∀ g ∈ tags, ∀ n, t.integer? g.value = some n → ∃ m, ⟨g.id, .number m⟩ ∈ members ∧ StandsFor m n

/-- the values of all tags that resolve are words -/
def TagsAreWords (t : Table) (tags : List EnumTag) : Prop :=
  ∀ g ∈ tags, ∀ n, t.integer? g.value = some n → IsWord n

section

variable {t : Table} {tags : List EnumTag} {g g' : EnumTag} {n n' : Int}

/-- the members of the enum -/
def enumMembers (t : Table) (tags : List EnumTag) : List EnumMember := tags.map fun g => ⟨g.id, t.tagValue g.value⟩

/-- a tag is generated with one value -/
theorem mem_enumMembers_iff (hn : (tags.map EnumTag.id).Nodup) (hg : g ∈ tags) {v : TagValue} :
    ⟨g.id, v⟩ ∈ enumMembers t tags ↔ v = t.tagValue g.value := by
  rw [enumMembers, List.mem_map]
  constructor
  · rintro ⟨g', hg', heq⟩
    obtain ⟨hid, rfl⟩ := EnumMember.mk.inj heq
    rw [List.inj_on_of_nodup_map hn hg' hg hid]
  · rintro rfl
    exact ⟨g, hg, rfl⟩

theorem tagValue_of_integer {x : String} (h : t.integer? x = some n) : t.tagValue x = .number (Table.wrap32 n) := by
  rw [Table.tagValue, h]

theorem mem_enumMembers_of_integer (hn : (tags.map EnumTag.id).Nodup) (hg : g ∈ tags)
    (h : t.integer? g.value = some n) {v : TagValue} :
    ⟨g.id, v⟩ ∈ enumMembers t tags ↔ v = .number (Table.wrap32 n) := by
  rw [mem_enumMembers_iff hn hg, tagValue_of_integer h]

theorem tagsKept_enumMembers_iff (hn : (tags.map EnumTag.id).Nodup) :
    TagsKept t tags (enumMembers t tags) ↔ TagsAreWords t tags := by
  refine forall₂_congr fun g hg => forall₂_congr fun n h => ?_
  rw [← Table.standsFor_wrap32_iff]
  constructor
  · rintro ⟨m, hm, hstands⟩
    obtain rfl := TagValue.number.inj ((mem_enumMembers_of_integer hn hg h).1 hm)
    exact hstands
  · exact fun hstands => ⟨_, (mem_enumMembers_of_integer hn hg h).2 rfl, hstands⟩

/-- two tags are one number when their values differ by a multiple of the size -/
theorem sameNumber_iff (hn : (tags.map EnumTag.id).Nodup) (hg : g ∈ tags) (hg' : g' ∈ tags)
    (h : t.integer? g.value = some n) (h' : t.integer? g'.value = some n') :
    (∃ v, ⟨g.id, v⟩ ∈ enumMembers t tags ∧ ⟨g'.id, v⟩ ∈ enumMembers t tags) ↔ 0x100000000 ∣ n - n' := by
  rw [← Table.wrap32_eq_wrap32_iff]
  constructor
  · rintro ⟨v, hv, hv'⟩
    rw [mem_enumMembers_of_integer hn hg h] at hv
    rw [mem_enumMembers_of_integer hn hg' h'] at hv'
    exact TagValue.number.inj (hv.symm.trans hv')
  · intro heq
    exact ⟨_, (mem_enumMembers_of_integer hn hg h).2 rfl, (mem_enumMembers_of_integer hn hg' h').2 (by rw [heq])⟩

/-- words that are not negative do not meet -/
theorem eq_of_dvd_of_isWord (hn : IsWord n) (hn' : IsWord n') (hpos : 0 ≤ n) (hpos' : 0 ≤ n')
    (h : 0x100000000 ∣ n - n') : n = n' := by
  simp only [IsWord, IntType.least, IntType.greatest] at hn hn'
  omega

/-- the tags of an enum in a reachable table are different -/
theorem Table.Reachable.enumTags_nodup (ht : t.Reachable) {d : Definition} (hd : d ∈ t.definitions) {id : String}
    (he : (Definition.enum id tags).Within d) : (tags.map EnumTag.id).Nodup := by
  have hbody := (Bool.and_eq_true_iff.1 (ht.sound.grammatical d hd)).2
  exact (Definition.validate_eq_ok_iff_within hbody).1 (ht.sound.valid d hd) _ he

end

/-- **The tags of an enum keep their values where these are words.** For an enum at any depth of a definition in a
reachable table, generated under any name and in any state: each tag whose value resolves is one constant, the signed
number that differs from the value by a multiple of the size. All tags have numbers that are written for their values
exactly when all values are words, signed or not. Two tags are the same number exactly when their values differ by such
a multiple, which words that are not negative never do. -/
theorem tags_kept_iff_words {t : Table} (ht : t.Reachable) {d : Definition} (hd : d ∈ t.definitions) {id : String}
    {tags : List EnumTag} (he : (Definition.enum id tags).Within d) (name : String) (s : Emission) :
    ∃ members : List EnumMember,
      ((Definition.enum id tags).emitAs t name s).2.fragments.back? = some (.enum name members) ∧
      (∀ g ∈ tags, ∀ n, t.integer? g.value = some n → ∃ m, IntType.i32.holds m = true ∧ 0x100000000 ∣ n - m ∧
        ∀ v, ⟨g.id, v⟩ ∈ members ↔ v = .number m) ∧
      (TagsKept t tags members ↔ TagsAreWords t tags) ∧
      ∀ g ∈ tags, ∀ g' ∈ tags, ∀ n n', t.integer? g.value = some n → t.integer? g'.value = some n' →
        ((∃ v, ⟨g.id, v⟩ ∈ members ∧ ⟨g'.id, v⟩ ∈ members) ↔ 0x100000000 ∣ n - n') ∧
        (IsWord n → IsWord n' → 0 ≤ n → 0 ≤ n' → n ≠ n' → ¬ ∃ v, ⟨g.id, v⟩ ∈ members ∧ ⟨g'.id, v⟩ ∈ members) := by
  have hn := ht.enumTags_nodup hd he
  refine ⟨enumMembers t tags, ?_, fun g hg n h => ?_, tagsKept_enumMembers_iff hn, fun g hg g' hg' n n' h h' => ?_⟩
  · rw [Definition.emitAs, run_push]
    exact Array.back?_push
  · exact ⟨Table.wrap32 n, Table.holds_wrap32 n, Table.dvd_sub_wrap32 n, fun v => mem_enumMembers_of_integer hn hg h⟩
  · have hsame := sameNumber_iff hn hg hg' h h'
    exact ⟨hsame, fun hw hw' hpos hpos' hne hv => hne (eq_of_dvd_of_isWord hw hw' hpos hpos' (hsame.1 hv))⟩

/-- an enum with a signed value and an unsigned one -/
def wordEnum : Definition := .enum "E" [⟨"A", "-7"⟩, ⟨"B", "0xffffffff"⟩]

theorem tags_kept_iff_words_sample : ∃ t, Table.empty.addSource (schemaText [wordEnum]) = (t, .ok 1) ∧ t.Reachable ∧
    wordEnum ∈ t.definitions ∧ wordEnum.Within wordEnum ∧
    ∃ members, (wordEnum.emitAs t "E" {}).2.fragments.back? = some (.enum "E" members) ∧
      TagsKept t [⟨"A", "-7"⟩, ⟨"B", "0xffffffff"⟩] members := by
  have hg : ∀ d ∈ [wordEnum], d.grammatical = true := by decide
  obtain ⟨t, hadd, ht, hds⟩ := exists_table_of_acceptable hg (by decide)
  have hd : wordEnum ∈ t.definitions := by
    rw [← Array.mem_toList_iff, hds]
    exact List.mem_cons_self
  have hwords : TagsAreWords t [⟨"A", "-7"⟩, ⟨"B", "0xffffffff"⟩] := by
    intro g hg n hn
    simp only [List.mem_cons, List.not_mem_nil, or_false] at hg
    rcases hg with rfl | rfl
    · rw [integer?_of_not_name ht (by decide)] at hn
      obtain rfl := Option.some.inj hn
      decide
    · rw [integer?_of_not_name ht (by decide)] at hn
      obtain rfl := Option.some.inj hn
      decide
  obtain ⟨members, hmembers, -, hkept, -⟩ := tags_kept_iff_words ht hd (.self wordEnum) "E" {}
  exact ⟨t, hadd, ht, hd, .self _, members, hmembers, hkept.2 hwords⟩

/-- an enum with a value above all words and one below the signed ones -/
def cutEnum : Definition := .enum "E" [⟨"A", "0"⟩, ⟨"B", "0x100000000"⟩, ⟨"C", "-0x80000001"⟩]

/-- **An enum is accepted in which different values that are not negative become one number,** and a negative one becomes
the greatest number. -/
theorem cut_accepted : ∃ t, Table.empty.addSource (schemaText [cutEnum]) = (t, .ok 1) ∧
    t.integer? "0" = some 0 ∧ t.integer? "0x100000000" = some 0x100000000 ∧
    t.integer? "-0x80000001" = some (-0x80000001) ∧
    .enum "E" [⟨"A", .number 0⟩, ⟨"B", .number 0⟩, ⟨"C", .number 0x7FFFFFFF⟩] ∈ t.emission.fragments ∧
    ¬ StandsFor 0 0x100000000 ∧ ¬ StandsFor 0x7FFFFFFF (-0x80000001) := by
  have hg : ∀ d ∈ [cutEnum], d.grammatical = true := by decide
  obtain ⟨t, hadd, ht, hds⟩ := exists_table_of_acceptable hg (by decide)
  have hd : cutEnum ∈ t.definitions := by
    rw [← Array.mem_toList_iff, hds]
    exact List.mem_cons_self
  have hzero : t.integer? "0" = some 0 := by
    rw [integer?_of_not_name ht (by decide)]
    decide
  have habove : t.integer? "0x100000000" = some 0x100000000 := by
    rw [integer?_of_not_name ht (by decide)]
    decide
  have hbelow : t.integer? "-0x80000001" = some (-0x80000001) := by
    rw [integer?_of_not_name ht (by decide)]
    decide
  refine ⟨t, hadd, hzero, habove, hbelow, ?_, ?_, ?_⟩
  · refine mem_emission_of_codeAs hd ?_
    simp [cutEnum, Definition.codeAs, Definition.id, Table.tagValue, hzero, habove, hbelow, Table.wrap32_eq]
  · simp [StandsFor, IntType.greatest]
  · simp [StandsFor, IntType.greatest]

end Xdr
