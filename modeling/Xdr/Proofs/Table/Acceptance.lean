/-
Which definitions are accepted together, and in which order.

A table accepts a list of definitions when each is lawful at every depth and all names, those of definitions and those
of enum tags, are different. This says nothing about the order, and no answer of the table depends on it.
- `insert_isOk_iff`, `insertAll_eq_none_iff`: one definition, and a list of them, added to any table.
- `alike_of_perm`: tables with the same definitions in another order answer alike.
- `acceptance`: both for the definitions of a source.
-/
import Mathlib.Data.List.Perm.Basic
import Xdr.Proofs.Schema.Rules
import Xdr.Proofs.Table.Calls
import Xdr.Resolve

namespace Xdr

/-- the names that a definition takes: its own and those of its tags -/
def Definition.names (d : Definition) : List String := d.id :: d.enumTags

namespace Table

variable {t t' : Table} {d : Definition} {ds ds' : List Definition}

/-! ## Names that are taken -/

theorem contains_foldl_insert (xs : List (String × String)) (m : Std.HashMap String String) (k : String) :
    (xs.foldl (fun m p => m.insert p.1 p.2) m).contains k = true ↔ k ∈ xs.map Prod.fst ∨ m.contains k = true := by
  induction xs generalizing m with
  | nil => simp
  | cons p xs ih =>
    rw [List.foldl_cons, ih, List.map_cons, List.mem_cons]
    simp only [Std.HashMap.contains_insert, Bool.or_eq_true, beq_iff_eq, eq_comm (a := k), or_left_comm, or_assoc]

/-- a definition that is added takes its names, and no others -/
theorem isDefined_extend (t : Table) (d : Definition) (x : String) :
    (t.extend d).isDefined x = true ↔ x ∈ d.names ∨ t.isDefined x = true := by
  simp only [isDefined, extend, Definition.names, Bool.or_eq_true, contains_foldl_insert, Std.HashMap.contains_insert,
    beq_iff_eq, List.mem_cons, d.map_fst_tags, eq_comm (a := x), or_left_comm, or_assoc]

/-- a definition is accepted when it is valid, its names are different and none of them is taken -/
theorem insert_eq_extend_iff : t.insert d = .ok (t.extend d) ↔
    d.validate = .ok () ∧ d.names.Nodup ∧ ∀ x ∈ d.names, ¬ t.isDefined x = true := by
  rw [insert_eq_ok_iff, firstTaken_eq_none_iff, firstRepeat_eq_none_iff, d.map_fst_tags, Definition.names,
    List.nodup_cons, List.forall_mem_cons]
  simp only [Bool.not_eq_true]
  constructor
  · rintro ⟨hvalid, hid, ⟨⟨hnodup, -⟩, htags⟩, -⟩
    exact ⟨hvalid, ⟨fun hmem => (htags _ hmem).2 rfl, hnodup⟩, hid, fun x hx => (htags x hx).1⟩
  · rintro ⟨hvalid, ⟨hne, hnodup⟩, hid, hfree⟩
    refine ⟨hvalid, hid, ⟨⟨hnodup, fun _ _ => List.not_mem_nil⟩, fun x hx => ⟨hfree x hx, ?_⟩⟩, trivial⟩
    rintro rfl
    exact hne hx

/-- **A list of definitions is accepted** when each is valid, all their names are different and none of them is taken -/
theorem insertAll_eq_none_iff : (t.insertAll ds).2 = none ↔
    (∀ d ∈ ds, d.validate = .ok ()) ∧ (ds.flatMap Definition.names).Nodup ∧
      ∀ x ∈ ds.flatMap Definition.names, ¬ t.isDefined x = true := by
  induction ds generalizing t with
  | nil => simp [insertAll]
  | cons d ds ih =>
    rw [List.flatMap_cons, List.nodup_append', List.forall_mem_append, List.forall_mem_cons, insertAll]
    cases hinsert : t.insert d with
    | error c =>
      have hrefused : ¬ (d.validate = .ok () ∧ d.names.Nodup ∧ ∀ x ∈ d.names, ¬ t.isDefined x = true) := by
        rw [← insert_eq_extend_iff, hinsert]
        intro haccepted
        cases haccepted
      simp only [reduceCtorEq, false_iff]
      rintro ⟨⟨hvalid, -⟩, ⟨hnodup, -⟩, hfree, -⟩
      exact hrefused ⟨hvalid, hnodup, hfree⟩
    | ok t' =>
      obtain ⟨-, -, -, rfl⟩ := insert_eq_ok_iff.1 hinsert
      obtain ⟨hvalid, hnodup, hfree⟩ := insert_eq_extend_iff.1 hinsert
      dsimp only
      simp only [ih, isDefined_extend, not_or]
      constructor
      · rintro ⟨hvalids, hnodups, hfrees⟩
        exact ⟨⟨hvalid, hvalids⟩, ⟨hnodup, hnodups, fun x hx hx' => (hfrees x hx').1 hx⟩, hfree,
          fun x hx => (hfrees x hx).2⟩
      · rintro ⟨⟨-, hvalids⟩, ⟨-, hnodups, hdisjoint⟩, -, hfrees⟩
        exact ⟨hvalids, hnodups, fun x hx => ⟨fun hx' => hdisjoint hx' hx, hfrees x hx⟩⟩

/-- definitions that are accepted are in the table, in order -/
theorem definitions_of_insertAll (h : (t.insertAll ds).2 = none) :
    (t.insertAll ds).1.definitions.toList = t.definitions.toList ++ ds := by
  induction ds generalizing t with
  | nil => rw [insertAll, List.append_nil]
  | cons d ds ih =>
    rw [insertAll] at h ⊢
    cases hinsert : t.insert d with
    | error c =>
      rw [hinsert] at h
      cases h
    | ok t' =>
      obtain ⟨-, -, -, rfl⟩ := insert_eq_ok_iff.1 hinsert
      rw [hinsert] at h
      rw [ih h, extend, Array.toList_push, List.append_assoc, List.singleton_append]

/-! ## Answers -/

/-- tables that give the same answers -/
structure AnswersAlike (t t' : Table) : Prop where
  get? : ∀ x, t.get? x = t'.get? x
  enumOf? : ∀ x, t.enumOf? x = t'.enumOf? x
  resolve : ∀ x, t.resolve x = t'.resolve x
  baseType : ∀ x, t.baseType x = t'.baseType x
  bound : ∀ x, t.bound x = t'.bound x
  enumType? : ∀ x, t.enumType? x = t'.enumType? x

/-- chains go on alike in tables of one size that find the same definitions -/
theorem chase_congr (hsize : t.definitions.size = t'.definitions.size) (hget : ∀ x, t.get? x = t'.get? x)
    (next : Definition → Option String) (x : String) : t.chase next x = t'.chase next x := by
  simp only [chase, hsize, hget]

/-- **The order of definitions is found in no answer.** -/
theorem alike_of_perm (hi : t.Indexed) (hi' : t'.Indexed) (ht : t.Tagged) (ht' : t'.Tagged)
    (hperm : t.definitions.toList.Perm t'.definitions.toList) : t.AnswersAlike t' := by
  have hsize : t.definitions.size = t'.definitions.size := by simpa using hperm.length_eq
  have hget : ∀ x, t.get? x = t'.get? x := by
    intro x
    apply Option.ext
    intro d
    rw [hi.get?_eq_some_iff, hi'.get?_eq_some_iff, ← Array.mem_toList_iff, ← Array.mem_toList_iff, hperm.mem_iff]
  have henum : ∀ x, t.enumOf? x = t'.enumOf? x := by
    intro x
    apply Option.ext
    intro enum
    rw [ht.keys, ht'.keys, tagList, tagList, (hperm.flatMap fun _ _ => List.Perm.rfl).mem_iff]
  have hresolve : ∀ x, t.resolve x = t'.resolve x := chase_congr hsize hget _
  refine ⟨hget, henum, hresolve, chase_congr hsize hget _, fun x => ?_, fun x => ?_⟩
  · simp only [bound, integer?, hresolve]
  · simp only [enumType?, hget, chase_congr hsize hget]

theorem indexed_tagged_kept : Kept fun t => t.Indexed ∧ t.Tagged where
  insert ht _ h := ⟨indexed_of_insert ht.1 h, insert_tagged ht.1 ht.2 h⟩
  fail e ht := ⟨ht.1, ht.2.fail e⟩

theorem Reachable.tagged (ht : t.Reachable) : t.Tagged := (ht.kept indexed_tagged_kept ⟨indexed_empty, tagged_empty⟩).2

/-- lists that are accepted in two orders leave tables that answer alike -/
theorem alike_insertAll_of_perm (hg : ∀ d ∈ ds, d.grammatical = true) (hperm : ds.Perm ds')
    (h : (Table.empty.insertAll ds).2 = none) (h' : (Table.empty.insertAll ds').2 = none) :
    (Table.empty.insertAll ds).1.AnswersAlike (Table.empty.insertAll ds').1 := by
  have hg' : ∀ d ∈ ds', d.grammatical = true := fun d hd => hg d (hperm.mem_iff.2 hd)
  obtain ⟨hi, ht⟩ := indexed_tagged_kept.insertAll ⟨indexed_empty, tagged_empty⟩ hg
  obtain ⟨hi', ht'⟩ := indexed_tagged_kept.insertAll ⟨indexed_empty, tagged_empty⟩ hg'
  apply alike_of_perm hi hi' ht ht'
  rwa [definitions_of_insertAll h, definitions_of_insertAll h']

end Table

/-- the rules of a list of definitions: each is lawful at every depth, and no name is taken twice, neither by a
definition nor by a tag of an enum, inline ones included -/
structure Acceptable (ds : List Definition) : Prop where
  lawful : ∀ d ∈ ds, ∀ e : Definition, e.Within d → e.Lawful
  distinct : (ds.map Definition.id ++ ds.flatMap Definition.enumTags).Nodup

instance (ds : List Definition) : Decidable (Acceptable ds) :=
  decidable_of_iff ((∀ d ∈ ds, ∀ e ∈ d.bodies, e.Lawful) ∧
      (ds.map Definition.id ++ ds.flatMap Definition.enumTags).Nodup)
    ⟨fun h => ⟨fun d hd e he => h.1 d hd e (Definition.mem_bodies_iff.2 he), h.2⟩,
      fun h => ⟨fun d hd e he => h.lawful d hd e (Definition.mem_bodies_iff.1 he), h.distinct⟩⟩

theorem Acceptable.of_perm {ds ds' : List Definition} (h : Acceptable ds) (hperm : ds.Perm ds') : Acceptable ds' := by
  have hnames : (ds.map Definition.id ++ ds.flatMap Definition.enumTags).Perm
      (ds'.map Definition.id ++ ds'.flatMap Definition.enumTags) :=
    (hperm.map _).append (hperm.flatMap fun _ _ => .rfl)
  exact ⟨fun d hd => h.lawful d (hperm.mem_iff.2 hd), hnames.nodup_iff.1 h.distinct⟩

/-- the empty table accepts what keeps the rules -/
theorem insertAll_empty_iff {ds : List Definition} (hg : ∀ d ∈ ds, d.grammatical = true) :
    (Table.empty.insertAll ds).2 = none ↔ Acceptable ds := by
  have hvalid : ∀ d ∈ ds, d.validate = .ok () ↔ ∀ e : Definition, e.Within d → e.Lawful := by
    intro d hd
    have hgrammatical := hg d hd
    simp only [Definition.grammatical, Bool.and_eq_true] at hgrammatical
    exact Definition.validate_eq_ok_iff_within hgrammatical.2
  have hnames : (ds.map Definition.id ++ ds.flatMap Definition.enumTags).Perm (ds.flatMap Definition.names) :=
    List.map_append_flatMap_perm ds Definition.id Definition.enumTags
  have hfree : ∀ x, ¬ Table.empty.isDefined x = true := by simp [Table.isDefined, Table.empty]
  rw [Table.insertAll_eq_none_iff, forall₂_congr hvalid, ← hnames.nodup_iff]
  constructor
  · rintro ⟨hlawful, hdistinct, -⟩
    exact ⟨hlawful, hdistinct⟩
  · rintro ⟨hlawful, hdistinct⟩
    exact ⟨hlawful, hdistinct, fun x _ => hfree x⟩

/-- a source of definitions that keep the rules is read into a table of these -/
theorem exists_table_of_parse {source : String} {ds : List Definition}
    (hread : ((scan source).bind fun s => Grammar.parse s.tokens) = .ok ds) (hds : Acceptable ds) :
    ∃ t : Table, Table.empty.addSource source = (t, .ok ds.length) ∧ t.Reachable ∧ t.definitions.toList = ds := by
  have haccepted := (insertAll_empty_iff (Table.grammatical_of_scan hread)).2 hds
  have hadd := Table.addSource_of_parse (t := .empty) hread
  rw [haccepted] at hadd
  exact ⟨_, hadd, Table.reachable_of_addSource hadd, Table.definitions_of_insertAll haccepted⟩

/-- so is the text that is written for them -/
theorem exists_table_of_acceptable {ds : List Definition} (hg : ∀ d ∈ ds, d.grammatical = true) (hds : Acceptable ds) :
    ∃ t : Table, Table.empty.addSource (schemaText ds) = (t, .ok ds.length) ∧ t.Reachable ∧
      t.definitions.toList = ds := by
  obtain ⟨s, hscan, hparse⟩ := exists_scan_schemaText hg
  exact exists_table_of_parse (Table.bind_parse_of_scan hscan hparse) hds

/-- **Definitions are accepted together exactly when they keep the rules, in whatever order.** The definitions of a
source are all inserted into the empty table when each is lawful at every depth, and no two of all their names and of
all tags of their enums are the same. So they are in any other order, and the two tables answer every question
alike. -/
theorem acceptance {source : String} {ds : List Definition}
    (hread : ((scan source).bind fun s => Grammar.parse s.tokens) = .ok ds) :
    ((Table.empty.insertAll ds).2 = none ↔ Acceptable ds) ∧
    ∀ ds' : List Definition, ds.Perm ds' →
      ((Table.empty.insertAll ds').2 = none ↔ (Table.empty.insertAll ds).2 = none) ∧
      ((Table.empty.insertAll ds).2 = none →
        (Table.empty.insertAll ds).1.AnswersAlike (Table.empty.insertAll ds').1) := by
  have hg := Table.grammatical_of_scan hread
  refine ⟨insertAll_empty_iff hg, fun ds' hperm => ?_⟩
  have hg' : ∀ d ∈ ds', d.grammatical = true := fun d hd => hg d (hperm.mem_iff.2 hd)
  have haccepted : (Table.empty.insertAll ds').2 = none ↔ (Table.empty.insertAll ds).2 = none := by
    rw [insertAll_empty_iff hg, insertAll_empty_iff hg']
    exact ⟨fun h => h.of_perm hperm.symm, fun h => h.of_perm hperm⟩
  exact ⟨haccepted, fun h => Table.alike_insertAll_of_perm hg hperm h (haccepted.2 h)⟩

/-- an enum in a field, and a definition with one of its tags for a value -/
def lampSchema : List Definition :=
  [.struct "lamp" [⟨"state", "", .scalar, "", some (.enum "" [⟨"ON", "1"⟩, ⟨"OFF", "0"⟩])⟩], .const "DEFAULT" "ON"]

/-- in both orders the lamp is accepted, and it is refused beside another definition with the name of its tag -/
theorem acceptance_lamp :
    ((Table.empty.insertAll lampSchema).2 = none ∧ (Table.empty.insertAll lampSchema.reverse).2 = none ∧
      (Table.empty.insertAll lampSchema).1.AnswersAlike (Table.empty.insertAll lampSchema.reverse).1) ∧
    ¬ (Table.empty.insertAll (.const "OFF" "2" :: lampSchema)).2 = none ∧
    ¬ (Table.empty.insertAll (lampSchema ++ [.const "OFF" "2"])).2 = none := by
  have hperm : lampSchema.Perm lampSchema.reverse := (List.reverse_perm _).symm
  have hmoved : (Definition.const "OFF" "2" :: lampSchema).Perm (lampSchema ++ [.const "OFF" "2"]) :=
    (List.perm_append_singleton _ _).symm
  have hg : ∀ d ∈ lampSchema, d.grammatical = true := by decide
  have hg' : ∀ d ∈ Definition.const "OFF" "2" :: lampSchema, d.grammatical = true := by decide
  obtain ⟨s, hscan, hparse⟩ := exists_scan_schemaText hg
  obtain ⟨s', hscan', hparse'⟩ := exists_scan_schemaText hg'
  have hlamp := acceptance (Table.bind_parse_of_scan hscan hparse)
  have hclash := acceptance (Table.bind_parse_of_scan hscan' hparse')
  have haccepted := hlamp.1.2 (by decide)
  have hrefused : ¬ (Table.empty.insertAll (.const "OFF" "2" :: lampSchema)).2 = none :=
    mt hclash.1.1 (by decide)
  obtain ⟨hboth, halike⟩ := hlamp.2 _ hperm
  exact ⟨⟨haccepted, hboth.2 haccepted, halike haccepted⟩, hrefused, mt (hclash.2 _ hmoved).1.1 hrefused⟩

end Xdr
