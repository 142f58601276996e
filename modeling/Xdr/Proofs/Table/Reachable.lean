/-
Tables that sources lead to.

`Reachable` tables come from the empty one by adding sources and files, faulty ones included.
- `insert_eq_ok_iff`: what `insert` checks and what it does.
- `Reachable.kept`: what an accepted definition keeps holds of every reachable table.
- `Reachable.sound`: every definition of a reachable table is grammatical and valid.
- `Reachable.indexed`: the index finds every definition; so definitions have different names.
-/
import Xdr.Proofs.Grammar.Output
import Xdr.Proofs.Grammar.RoundTrip
import Xdr.Proofs.Schema.Nested
import Xdr.Table

namespace Xdr.Table

/-- what sources and files make of the empty table -/
inductive Reachable : Table → Prop
  | empty : Reachable .empty
  | addSource {t : Table} (h : Reachable t) (source : String) : Reachable (t.addSource source).1
  | addInput {t : Table} (h : Reachable t) (path : String) (read : Except FileError String) :
    Reachable (t.addInput path read).1

/-- every definition is one that a schema can write, and valid -/
structure Sound (t : Table) : Prop where
  grammatical : ∀ d ∈ t.definitions, d.grammatical = true
  valid : ∀ d ∈ t.definitions, d.validate = .ok ()

variable {t t' : Table} {d : Definition}

/-! ## One definition -/

/-- the table with a definition more -/
def extend (t : Table) (d : Definition) : Table :=
  { t with
    definitions := t.definitions.push d
    index := t.index.insert d.id t.definitions.size
    tags := d.tags.foldl (fun m p => m.insert p.1 p.2) t.tags }

theorem insert_eq_ok_iff : t.insert d = .ok t' ↔ d.validate = .ok () ∧ t.isDefined d.id = false ∧
    t.firstTaken d.id [] (d.tags.map Prod.fst) = none ∧ t.extend d = t' := by
  unfold insert
  cases hv : d.validate with
  | error e => simp [bind, Except.bind]
  | ok _ =>
    cases hd : t.isDefined d.id with
    | true => simp [bind, Except.bind, throw, throwThe, MonadExceptOf.throw]
    | false =>
      cases ht : t.firstTaken d.id [] (d.tags.map Prod.fst) with
      | some tag => simp [bind, Except.bind, throw, throwThe, MonadExceptOf.throw]
      | none => simp [bind, Except.bind, pure, Except.pure, extend]

/-! ## Sources -/

/-- definitions read from a text are grammatical -/
theorem grammatical_of_scan {source : String} {ds : List Definition}
    (h : ((scan source).bind fun s => Grammar.parse s.tokens) = .ok ds) : ∀ d ∈ ds, d.grammatical = true := by
  obtain ⟨s, hscan, hparse⟩ := of_bind_eq_ok h
  exact Grammar.grammatical_of_parse (wellSpelled_of_mem_scan hscan) hparse

theorem bind_parse_of_scan {source : String} {s : Scanned} {ds : List Definition} (hscan : scan source = .ok s)
    (hparse : Grammar.parse s.tokens = .ok ds) : ((scan source).bind fun s => Grammar.parse s.tokens) = .ok ds := by
  rw [hscan]
  exact hparse

theorem addSource_of_parse {source : String} {ds : List Definition}
    (h : ((scan source).bind fun s => Grammar.parse s.tokens) = .ok ds) : t.addSource source =
      ((t.insertAll ds).1, match (t.insertAll ds).2 with
        | none => .ok ds.length
        | some c => .error (.clash c)) := by
  unfold addSource
  rw [h]
  dsimp only
  rcases t.insertAll ds with ⟨t', _ | c⟩ <;> rfl

/-- what accepted definitions and remembered failures keep -/
structure Kept (P : Table → Prop) : Prop where
  insert : ∀ {t t' : Table} {d : Definition}, P t → d.grammatical = true → t.insert d = .ok t' → P t'
  fail : ∀ {t : Table} (e : InputError), P t → P (t.fail e).1

section

variable {P : Table → Prop} (hP : Kept P)

include hP

theorem Kept.insertAll {ds : List Definition} (ht : P t) (hg : ∀ d ∈ ds, d.grammatical = true) :
    P (t.insertAll ds).1 := by
  induction ds generalizing t with
  | nil => exact ht
  | cons d ds ih =>
    rw [Table.insertAll]
    cases hi : t.insert d with
    | error c => exact ht
    | ok t' => exact ih (hP.insert ht (hg d List.mem_cons_self) hi) fun e he => hg e (List.mem_cons_of_mem d he)

theorem Kept.addSource (ht : P t) (source : String) : P (t.addSource source).1 := by
  cases hp : (scan source).bind fun s => Grammar.parse s.tokens with
  | error e =>
    rw [Table.addSource, hp]
    exact ht
  | ok ds =>
    rw [addSource_of_parse hp]
    exact hP.insertAll ht (grammatical_of_scan hp)

theorem Kept.addInput (ht : P t) (path : String) (read : Except FileError String) : P (t.addInput path read).1 := by
  cases read with
  | error e => exact hP.fail _ ht
  | ok source =>
    have hadd := hP.addSource ht source
    rw [Table.addInput]
    cases ha : t.addSource source with
    | mk t' result =>
      rw [ha] at hadd
      cases result with
      | ok n => exact hadd
      | error e => exact hP.fail _ hadd

/-- what holds of the empty table and is kept holds of every reachable table -/
theorem Reachable.kept (hempty : P .empty) (h : t.Reachable) : P t := by
  induction h with
  | empty => exact hempty
  | addSource _ source ih => exact hP.addSource ih source
  | addInput _ path read ih => exact hP.addInput ih path read

end

/-! ## Definitions -/

theorem sound_of_insert (hs : t.Sound) (hg : d.grammatical = true) (h : t.insert d = .ok t') : t'.Sound := by
  obtain ⟨hv, -, -, rfl⟩ := insert_eq_ok_iff.1 h
  refine ⟨fun e he => ?_, fun e he => ?_⟩
  · rcases Array.mem_push.1 he with he | rfl
    · exact hs.grammatical e he
    · exact hg
  · rcases Array.mem_push.1 he with he | rfl
    · exact hs.valid e he
    · exact hv

/-- **Definitions of a reachable table are grammatical and valid.** -/
theorem Reachable.sound (h : t.Reachable) : t.Sound :=
  h.kept ⟨sound_of_insert, fun _ ht => ⟨ht.grammatical, ht.valid⟩⟩ ⟨by simp [Table.empty], by simp [Table.empty]⟩

/-- the index finds every definition where it is, and nothing else -/
def Indexed (t : Table) : Prop :=
  ∀ (x : String) (i : Nat), t.index[x]? = some i ↔ ∃ d : Definition, t.definitions[i]? = some d ∧ d.id = x

theorem indexed_empty : Table.empty.Indexed := fun x i => by simp [Table.empty]

theorem Indexed.extend (ht : t.Indexed) (hfree : t.index[d.id]? = none) : (t.extend d).Indexed := by
  intro x i
  simp only [Table.extend, Std.HashMap.getElem?_insert, Array.getElem?_push, beq_iff_eq]
  by_cases hx : d.id = x
  · subst hx
    rw [if_pos rfl]
    constructor
    · rintro ⟨⟩
      exact ⟨d, by simp, rfl⟩
    · rintro ⟨e, he, hid⟩
      split_ifs at he with hi
      · exact congrArg some hi.symm
      · rw [(ht d.id i).2 ⟨e, he, hid⟩] at hfree
        cases hfree
  · rw [if_neg hx, ht x i]
    split_ifs with hi
    · subst hi
      simp [hx]
    · rfl

theorem indexed_of_insert (ht : t.Indexed) (h : t.insert d = .ok t') : t'.Indexed := by
  obtain ⟨-, hfree, -, rfl⟩ := insert_eq_ok_iff.1 h
  simp only [isDefined, Bool.or_eq_false_iff] at hfree
  exact ht.extend (by simpa using hfree.1)

theorem Reachable.indexed (h : t.Reachable) : t.Indexed :=
  h.kept ⟨fun ht _ => indexed_of_insert ht, fun _ ht => ht⟩ indexed_empty

/-- what is found under a name is the definition of that name -/
theorem Indexed.get?_eq_some_iff (ht : t.Indexed) {x : String} :
    t.get? x = some d ↔ d ∈ t.definitions ∧ d.id = x := by
  rw [get?, Option.bind_eq_some_iff]
  constructor
  · rintro ⟨i, hi, hd⟩
    obtain ⟨e, he, hid⟩ := (ht x i).1 hi
    obtain rfl := Option.some.inj (hd.symm.trans he)
    exact ⟨Array.mem_of_getElem? hd, hid⟩
  · rintro ⟨hd, hid⟩
    obtain ⟨i, hi⟩ := Array.getElem?_of_mem hd
    exact ⟨i, (ht x i).2 ⟨d, hi, hid⟩, hi⟩

theorem Reachable.get?_eq_some (h : t.Reachable) {x : String} (hx : t.get? x = some d) :
    d ∈ t.definitions ∧ d.id = x :=
  h.indexed.get?_eq_some_iff.1 hx

/-- definitions that the index finds have different names -/
theorem Indexed.ids_nodup (ht : t.Indexed) : (t.definitions.toList.map Definition.id).Nodup := by
  rw [List.nodup_iff_pairwise_ne, List.pairwise_map, List.pairwise_iff_getElem]
  intro i j hi hj hij heq
  have hfound : ∀ k (hk : k < t.definitions.toList.length),
      t.index[(t.definitions.toList[k]).id]? = some k := fun k hk =>
    (ht _ k).2 ⟨_, by simp, rfl⟩
  have hi' := hfound i hi
  rw [heq, hfound j hj] at hi'
  exact Nat.ne_of_lt hij (Option.some.inj hi').symm

/-- definitions have different names -/
theorem Reachable.ids_nodup (h : t.Reachable) : (t.definitions.toList.map Definition.id).Nodup :=
  h.indexed.ids_nodup

/-! ## Texts -/

/-- the table of definitions that are added in order -/
def ofDefinitions (ds : List Definition) : Table := ds.foldl extend .empty

theorem insertAll_of_nodup {ds : List Definition} (hv : ∀ d ∈ ds, d.validate = .ok ()) (htags : ∀ d ∈ ds, d.tags = [])
    (hids : (ds.map Definition.id).Nodup) (hfree : ∀ d ∈ ds, t.isDefined d.id = false) :
    t.insertAll ds = (ds.foldl extend t, none) := by
  induction ds generalizing t with
  | nil => rfl
  | cons d ds ih =>
    rw [List.forall_mem_cons] at hv htags hfree
    rw [List.map_cons, List.nodup_cons] at hids
    have hinsert : t.insert d = .ok (t.extend d) := by
      refine insert_eq_ok_iff.2 ⟨hv.1, hfree.1, ?_, rfl⟩
      rw [htags.1]
      rfl
    have hfree' : ∀ e ∈ ds, (t.extend d).isDefined e.id = false := by
      intro e he
      have hne : d.id ≠ e.id := fun heq => hids.1 (heq ▸ List.mem_map_of_mem he)
      have hfree' := hfree.2 e he
      simp only [isDefined, Bool.or_eq_false_iff] at hfree' ⊢
      simpa [extend, htags.1, hne] using hfree'
    rw [insertAll, hinsert]
    exact ih hv.2 htags.2 hids.2 hfree'

/-- valid definitions of different names that bring no tags are accepted together -/
theorem addSource_schemaText_of_nodup {ds : List Definition} (hg : ∀ d ∈ ds, d.grammatical = true)
    (hv : ∀ d ∈ ds, d.validate = .ok ()) (htags : ∀ d ∈ ds, d.tags = []) (hids : (ds.map Definition.id).Nodup) :
    Table.empty.addSource (schemaText ds) = (ofDefinitions ds, .ok ds.length) := by
  obtain ⟨s, hscan, hparse⟩ := exists_scan_schemaText hg
  rw [addSource_of_parse (bind_parse_of_scan hscan hparse), insertAll_of_nodup hv htags hids]
  · rfl
  · simp [isDefined, Table.empty]

/-- a valid definition that brings no tags is accepted alone -/
theorem addSource_schemaText (hg : d.grammatical = true) (hv : d.validate = .ok ()) (htags : d.tags = []) :
    Table.empty.addSource (schemaText [d]) = (Table.empty.extend d, .ok 1) := by
  refine addSource_schemaText_of_nodup ?_ ?_ ?_ (by simp)
  · rwa [List.forall_mem_singleton]
  · rwa [List.forall_mem_singleton]
  · rwa [List.forall_mem_singleton]

theorem reachable_of_addSource {source : String} {result : Except SourceError Nat}
    (h : Table.empty.addSource source = (t, result)) : t.Reachable := by
  have hadd := Reachable.addSource .empty source
  rwa [h] at hadd

theorem get?_extend (ht : t.Indexed) (d : Definition) (x : String) :
    (t.extend d).get? x = if d.id = x then some d else t.get? x := by
  by_cases hx : d.id = x
  · simp [get?, extend, hx]
  · rw [if_neg hx]
    simp only [get?, extend, Std.HashMap.getElem?_insert, beq_iff_eq, if_neg hx]
    refine Option.bind_congr fun i hi => ?_
    obtain ⟨e, he, -⟩ := (ht x i).1 hi
    rw [Array.getElem?_push, if_neg]
    rintro rfl
    simp at he

theorem get?_extend_empty (d : Definition) (x : String) :
    (Table.empty.extend d).get? x = if d.id = x then some d else none := by
  rw [get?_extend indexed_empty]
  simp [get?, Table.empty]

end Xdr.Table
