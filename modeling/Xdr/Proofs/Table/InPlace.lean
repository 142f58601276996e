/-
Definitions that are added in place.

A table is changed in place: `Change` is a sequence of steps that stops at the first fault, and what was changed before
the fault stays changed. `Change.insert` adds one definition in such steps; its checks come before its changes.
- `on_insert`: a definition is added in place as `insert` adds it, and one that is refused leaves the table as it was.
- `on_insertEach`: definitions one by one, up to the first that is refused.
- `insertAll_split`: which definitions are accepted, and what they add (`AddsExactly`).
- `faults_keep_the_table`: faults of definitions and of sources, in every table.
-/
import Xdr.Proofs.Table.Calls

namespace Xdr.Table

/-! ## In place -/

/-- steps on a table up to the first fault; the changes before the fault stay -/
abbrev Change := ExceptT Clash (StateM Table)

namespace Change

/-- how the steps end, and the table that they leave -/
def on {α : Type} (x : Change α) (t : Table) : Except Clash α × Table := x.run t

def refuseIf (b : Bool) (c : Clash) : Change Unit := if b then throw c else pure ()

/-- the tags of a definition named `id`, one after another -/
def checkTags (id : String) : List String → List String → Change Unit
  | _, [] => pure ()
  | seen, tag :: tags => do
    refuseIf ((← get).isDefined tag || tag == id || seen.contains tag) (.name tag)
    checkTags id (tag :: seen) tags

def insert (d : Definition) : Change Unit := do
  liftExcept d.validate
  refuseIf ((← get).isDefined d.id) (.name d.id)
  checkTags d.id [] (d.tags.map Prod.fst)
  modify fun t => { t with tags := d.tags.foldl (fun m p => m.insert p.1 p.2) t.tags }
  modify fun t => { t with index := t.index.insert d.id t.definitions.size }
  modify fun t => { t with definitions := t.definitions.push d }

/-- definitions one by one -/
def insertEach : List Definition → Change Unit
  | [] => pure ()
  | d :: ds => do
    insert d
    insertEach ds

variable {α β : Type}

theorem on_get (t : Table) : (get : Change Table).on t = (.ok t, t) := rfl

theorem on_modify (f : Table → Table) (t : Table) : (modify f : Change Unit).on t = (.ok (), f t) := rfl

theorem on_bind (x : Change α) (f : α → Change β) (t : Table) : (x >>= f).on t =
    match x.on t with
    | (.ok a, t') => (f a).on t'
    | (.error c, t') => (.error c, t') := by
  simp only [on, ExceptT.run_bind]
  rcases h : x.run t with ⟨c | a, t'⟩
  · simp only [bind, StateT.bind, h]
    rfl
  · simp only [bind, StateT.bind, h]

theorem on_liftExcept (r : Except Clash α) (t : Table) : (liftExcept r : Change α).on t = (r, t) := by
  cases r <;> rfl

theorem on_refuseIf (b : Bool) (c : Clash) (t : Table) :
    (refuseIf b c).on t = (if b then .error c else .ok (), t) := by
  cases b <;> rfl

theorem on_checkTags (id : String) (seen tags : List String) (t : Table) : (checkTags id seen tags).on t =
    (match t.firstTaken id seen tags with
      | some tag => .error (.name tag)
      | none => .ok (), t) := by
  induction tags generalizing seen with
  | nil => rfl
  | cons tag tags ih =>
    simp only [checkTags, on_bind, on_get, on_refuseIf, firstTaken]
    cases t.isDefined tag || tag == id || seen.contains tag with
    | true => rfl
    | false => exact ih (tag :: seen)

/-- **A definition that is refused leaves the table as it was**, and one that is accepted is added as `insert` does. -/
theorem on_insert (d : Definition) (t : Table) : (insert d).on t =
    match t.insert d with
    | .ok t' => (.ok (), t')
    | .error c => (.error c, t) := by
  simp only [insert, on_bind, on_liftExcept, on_get, on_refuseIf, on_checkTags, on_modify, Table.insert]
  cases d.validate with
  | error c => rfl
  | ok _ =>
    dsimp only
    cases t.isDefined d.id with
    | true => rfl
    | false =>
      simp only [Bool.false_eq_true, if_false]
      cases t.firstTaken d.id [] (d.tags.map Prod.fst) <;> rfl

/-- definitions one by one leave the table that all of them leave -/
theorem on_insertEach (ds : List Definition) (t : Table) : (insertEach ds).on t =
    (match (t.insertAll ds).2 with
      | none => .ok ()
      | some c => .error c, (t.insertAll ds).1) := by
  induction ds generalizing t with
  | nil => rfl
  | cons d ds ih =>
    rw [insertEach, on_bind, on_insert, insertAll]
    cases t.insert d with
    | error c => rfl
    | ok t' => exact ih t'

end Change

/-! ## What is added -/

variable {t t₁ t' : Table} {d : Definition} {ds ds' : List Definition}

/-- `t'` is `t` with these definitions behind its own, with their names and tags, and nothing else -/
structure AddsExactly (t : Table) (ds : List Definition) (t' : Table) : Prop where
  definitions : t'.definitions.toList = t.definitions.toList ++ ds
  index : ∀ (x : String) (i : Nat), t'.index[x]? = some i ↔
    t.index[x]? = some i ∨ ∃ (k : Nat) (d : Definition), ds[k]? = some d ∧ d.id = x ∧ i = t.definitions.size + k
  tags : ∀ tag enum, t'.enumOf? tag = some enum ↔
    t.enumOf? tag = some enum ∨ (tag, enum) ∈ ds.flatMap Definition.tags
  failures : t'.failures = t.failures

theorem AddsExactly.nil (t : Table) : t.AddsExactly [] t := by
  refine ⟨(List.append_nil _).symm, fun x i => ?_, fun tag enum => ?_, rfl⟩
  · simp
  · simp

/-- names are new when they are added -/
theorem index_extend (hfree : t.isDefined d.id = false) (x : String) (i : Nat) :
    (t.extend d).index[x]? = some i ↔ t.index[x]? = some i ∨ d.id = x ∧ i = t.definitions.size := by
  simp only [extend, Std.HashMap.getElem?_insert, beq_iff_eq]
  split_ifs with hx
  · subst hx
    have hnone : t.index[d.id]? = none := by
      simp only [isDefined, Bool.or_eq_false_iff] at hfree
      simpa using hfree.1
    simp [hnone, eq_comm]
  · simp [hx]

/-- so are tags -/
theorem enumOf?_extend_of_free (htaken : t.firstTaken d.id [] (d.tags.map Prod.fst) = none) (tag enum : String) :
    (t.extend d).enumOf? tag = some enum ↔ t.enumOf? tag = some enum ∨ (tag, enum) ∈ d.tags := by
  obtain ⟨hrepeat, htags⟩ := firstTaken_eq_none_iff.1 htaken
  rw [enumOf?_extend (firstRepeat_eq_none_iff.1 hrepeat).1, or_comm]
  refine or_congr_left (and_iff_right_of_imp fun henum hmem => ?_)
  rw [enumOf?_eq_none_of_isDefined (htags tag hmem).1] at henum
  cases henum

/-- one definition more, before the others -/
theorem AddsExactly.cons (hinsert : t.insert d = .ok t₁) (h : t₁.AddsExactly ds t') : t.AddsExactly (d :: ds) t' := by
  obtain ⟨-, hfree, htaken, rfl⟩ := insert_eq_ok_iff.1 hinsert
  refine ⟨?_, fun x i => ?_, fun tag enum => ?_, h.failures⟩
  · rw [h.definitions, extend, Array.toList_push, List.append_assoc, List.singleton_append]
  · have hsize : (t.extend d).definitions.size = t.definitions.size + 1 := Array.size_push d
    rw [h.index, index_extend hfree, or_assoc, hsize]
    refine or_congr_right ⟨?_, ?_⟩
    · rintro (⟨hid, hi⟩ | ⟨k, e, he, hid, hi⟩)
      · exact ⟨0, d, rfl, hid, hi⟩
      · exact ⟨k + 1, e, he, hid, by omega⟩
    · rintro ⟨k, e, he, hid, hi⟩
      cases k with
      | zero =>
        cases he
        exact .inl ⟨hid, hi⟩
      | succ k => exact .inr ⟨k, e, he, hid, by omega⟩
  · rw [h.tags, enumOf?_extend_of_free htaken, or_assoc, List.flatMap_cons, List.mem_append]

/-- definitions are accepted up to the first that is refused, and just these are added -/
theorem insertAll_split (t : Table) (ds : List Definition) : ∃ added rest, ds = added ++ rest ∧
    t.AddsExactly added (t.insertAll ds).1 ∧
    ((rest = [] ∧ (t.insertAll ds).2 = none) ∨
      ∃ d later c, rest = d :: later ∧ (t.insertAll ds).1.insert d = .error c ∧ (t.insertAll ds).2 = some c) := by
  induction ds generalizing t with
  | nil => exact ⟨[], [], rfl, .nil t, .inl ⟨rfl, rfl⟩⟩
  | cons d ds ih =>
    rw [insertAll]
    cases hinsert : t.insert d with
    | error c => exact ⟨[], d :: ds, rfl, .nil t, .inr ⟨d, ds, c, rfl, hinsert, rfl⟩⟩
    | ok t₁ =>
      obtain ⟨added, rest, rfl, hadds, hend⟩ := ih t₁
      exact ⟨d :: added, rest, rfl, .cons hinsert hadds, hend⟩

/-- **Faults keep the table.** In every table, a definition is added in place as `insert` adds it, and one that is
refused changes nothing. A source with a fault in its text changes nothing; any other ends as its definitions end that
are added in place one by one: those before the first that is refused, or all if none is, are added in order, with their
names and tags, and nothing else is. -/
theorem faults_keep_the_table (t : Table) :
    (∀ d, (Change.insert d).on t = match t.insert d with
      | .ok t' => (.ok (), t')
      | .error c => (.error c, t)) ∧
    ∀ source,
      (∀ e, ((scan source).bind fun s => Grammar.parse s.tokens) = .error e → t.addSource source = (t, .error e)) ∧
      ∀ ds, ((scan source).bind fun s => Grammar.parse s.tokens) = .ok ds →
        (∀ r t', (Change.insertEach ds).on t = (r, t') →
          t.addSource source = (t', (r.mapError SourceError.clash).map fun _ => ds.length)) ∧
        ∃ added rest t', ds = added ++ rest ∧ t.AddsExactly added t' ∧
          ((rest = [] ∧ t.addSource source = (t', .ok ds.length)) ∨
            ∃ d later c, rest = d :: later ∧ (Change.insert d).on t' = (.error c, t') ∧
              t.addSource source = (t', .error (.clash c))) := by
  refine ⟨fun d => Change.on_insert d t, fun source => ⟨fun e he => ?_, fun ds hds => ⟨fun r t' h => ?_, ?_⟩⟩⟩
  · rw [addSource, he]
  · rw [Change.on_insertEach] at h
    obtain ⟨rfl, rfl⟩ := Prod.mk.inj h
    rw [addSource_of_parse hds]
    cases (t.insertAll ds).2 <;> rfl
  · obtain ⟨added, rest, heq, hadds, hend⟩ := insertAll_split t ds
    refine ⟨added, rest, _, heq, hadds, ?_⟩
    rw [addSource_of_parse hds]
    rcases hend with ⟨hrest, hnone⟩ | ⟨d, later, c, hrest, hinsert, hsome⟩
    · exact .inl ⟨hrest, by rw [hnone]⟩
    · exact .inr ⟨d, later, c, hrest, by rw [Change.on_insert, hinsert], by rw [hsome]⟩

end Xdr.Table
