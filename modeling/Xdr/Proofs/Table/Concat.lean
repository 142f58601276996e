/-
Sources that are added one after another.

Inputs share one namespace as if they were one text: two sources that are added in order leave the table that their
concatenation leaves, with a line break between.
- `insertAll_append`: definitions are added one by one, wherever their lists come from.
- `addSource_append_newline`: the table after two sources is the table after one.
- `concatenation_adds_both`: the same from the empty table, and for what is generated from two files.
-/
import Xdr.Generate
import Xdr.Proofs.Grammar.Concat
import Xdr.Proofs.Table.Reachable

namespace Xdr

namespace Table

variable {t t' t₁ t₂ : Table} {a b source : String} {m n : Nat}

theorem insertAll_append (ds es : List Definition) : t.insertAll (ds ++ es) =
    match t.insertAll ds with
    | (t', none) => t'.insertAll es
    | (t', some c) => (t', some c) := by
  induction ds generalizing t with
  | nil => rfl
  | cons d ds ih =>
    rw [List.cons_append, insertAll, insertAll]
    cases t.insert d with
    | ok t' => exact ih
    | error c => rfl

/-- a source that is added without a fault is read, and all its definitions are inserted -/
theorem addSource_eq_ok_iff : t.addSource source = (t', .ok n) ↔ ∃ s ds, scan source = .ok s ∧
    Grammar.parse s.tokens = .ok ds ∧ t.insertAll ds = (t', none) ∧ ds.length = n := by
  constructor
  · intro h
    cases hread : (scan source).bind fun s => Grammar.parse s.tokens with
    | error e =>
      rw [addSource, hread] at h
      cases h
    | ok ds =>
      obtain ⟨s, hscan, hparse⟩ := of_bind_eq_ok hread
      rw [addSource_of_parse hread] at h
      refine ⟨s, ds, hscan, hparse, ?_⟩
      rcases hinsert : t.insertAll ds with ⟨t'', _ | c⟩
      · rw [hinsert] at h
        cases h
        exact ⟨rfl, rfl⟩
      · rw [hinsert] at h
        cases h
  · rintro ⟨s, ds, hscan, hparse, hinsert, rfl⟩
    rw [addSource_of_parse (bind_parse_of_scan hscan hparse), hinsert]

/-- **Two sources leave the table that one of both leaves.** -/
theorem addSource_append_newline (ha : t.addSource a = (t₁, .ok m)) (hb : t₁.addSource b = (t₂, .ok n)) :
    t.addSource (a ++ "\n" ++ b) = (t₂, .ok (m + n)) := by
  obtain ⟨s, ds, hscan, hparse, hinsert, rfl⟩ := addSource_eq_ok_iff.1 ha
  obtain ⟨s', es, hscan', hparse', hinsert', rfl⟩ := addSource_eq_ok_iff.1 hb
  refine addSource_eq_ok_iff.2 ⟨_, ds ++ es, scan_append_newline hscan hscan', ?_, ?_, List.length_append⟩
  · exact Grammar.parse_append hparse hparse' s.stop.line
  · rw [insertAll_append, hinsert]
    exact hinsert'

theorem failures_insertAll (t : Table) (ds : List Definition) : (t.insertAll ds).1.failures = t.failures := by
  induction ds generalizing t with
  | nil => rfl
  | cons d ds ih =>
    rw [insertAll]
    cases hinsert : t.insert d with
    | error c => rfl
    | ok t' =>
      obtain ⟨-, -, -, rfl⟩ := insert_eq_ok_iff.1 hinsert
      exact ih _

/-- a source that is added alone is no failure, whatever its faults -/
theorem failures_of_addSource {result : Except SourceError Nat} (h : t.addSource source = (t', result)) :
    t'.failures = t.failures := by
  cases hparse : (scan source).bind fun s => Grammar.parse s.tokens with
  | error e =>
    rw [addSource, hparse] at h
    cases h
    rfl
  | ok ds =>
    have hfailures := failures_insertAll t ds
    rw [addSource_of_parse hparse] at h
    rwa [(Prod.mk.inj h).1] at hfailures

theorem addFile_of_addSource {read : Reader} {path : String} (hread : read path = .ok source)
    (h : t.addSource source = (t', .ok n)) : t.addFile read path = (t', [.parsed path n]) := by
  rw [addFile, hread, addInput, h]

end Table

/-- **A text of two sources adds both.** Two sources that are added to the empty table without a fault can be written as
one text, with a line break between: it adds as many definitions as both and leaves the same table, so all that is found
in it and generated for it is the same. What is generated from two files with these texts is what is generated from the
one text; only the two files are reported as well. -/
theorem concatenation_adds_both {t₁ t₂ : Table} {a b : String} {m n : Nat}
    (ha : Table.empty.addSource a = (t₁, .ok m)) (hb : t₁.addSource b = (t₂, .ok n)) :
    Table.empty.addSource (a ++ "\n" ++ b) = (t₂, .ok (m + n)) ∧
    ∀ (read : Reader) (p q : String), read p = .ok a → read q = .ok b →
      generateFiles read [p, q] {} = ⟨(generateSource (a ++ "\n" ++ b)).result,
        .parsed p m :: .parsed q n :: (generateSource (a ++ "\n" ++ b)).events⟩ := by
  have hboth := Table.addSource_append_newline ha hb
  refine ⟨hboth, fun read p q hp hq => ?_⟩
  have hfailures : t₂.failures = [] := by
    rw [Table.failures_of_addSource hboth]
    rfl
  have hfiles : Table.empty.addFiles read [p, q] = (t₂, [.parsed p m, .parsed q n]) := by
    simp only [Table.addFiles, Table.addFile_of_addSource hp ha, Table.addFile_of_addSource hq hb]
    rfl
  rw [generateFiles, generateSource, hfiles, hboth]
  simp [hfailures]

/-- a length -/
def keyLength : Definition := .const "LEN" "16"

/-- a type that has that length, and another source than the length -/
def keyType : Definition := .typedef { id := "Key", typeName := "opaque", qualifier := .array, bound := "LEN" }

theorem concatenation_adds_both_sample :
    Table.empty.addSource (schemaText [keyLength]) = (Table.empty.extend keyLength, .ok 1) ∧
    (Table.empty.extend keyLength).addSource (schemaText [keyType]) =
      ((Table.empty.extend keyLength).extend keyType, .ok 1) ∧
    Table.empty.addSource (schemaText [keyLength] ++ "\n" ++ schemaText [keyType]) =
      ((Table.empty.extend keyLength).extend keyType, .ok 2) := by
  have ha : Table.empty.addSource (schemaText [keyLength]) = (Table.empty.extend keyLength, .ok 1) :=
    Table.addSource_schemaText (by decide) rfl rfl
  have hb : (Table.empty.extend keyLength).addSource (schemaText [keyType]) =
      ((Table.empty.extend keyLength).extend keyType, .ok 1) := by
    have hfree : (Table.empty.extend keyLength).isDefined keyType.id = false := by
      simp [Table.isDefined, Table.extend, Table.empty, keyLength, keyType, Definition.id, Definition.tags,
        Definition.tagsAs]
    have hgrammatical : ∀ d ∈ [keyType], d.grammatical = true := List.forall_mem_singleton.2 (by decide)
    obtain ⟨s, hscan, hparse⟩ := exists_scan_schemaText hgrammatical
    refine Table.addSource_eq_ok_iff.2 ⟨s, _, hscan, hparse, Table.insertAll_of_nodup ?_ ?_ (by simp) ?_, rfl⟩
    · exact List.forall_mem_singleton.2 rfl
    · exact List.forall_mem_singleton.2 rfl
    · exact List.forall_mem_singleton.2 hfree
  exact ⟨ha, hb, (concatenation_adds_both ha hb).1⟩

end Xdr
