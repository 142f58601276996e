/-
Runs of calls on a table.

A call adds one definition, a source or a file; it may fail. Definitions that are added alone need not be such as a
schema can write.
- `insert_tagged`, `insert_grows`: what one accepted definition keeps; `Tagged.calls`, `calls_grow`: what runs keep.
- `consistent_after_calls`: after every run the list of definitions, the index and the tags say the same, and what was
  stored stays where it is.
-/
import Xdr.Proofs.Schema.Tags
import Xdr.Proofs.Table.Reachable

namespace Xdr.Table

/-- one use of a table that may change it -/
inductive Call where
  | insert (d : Definition)
  | addSource (source : String)
  /-- a file under its path, with what reading it gave -/
  | addInput (path : String) (read : Except FileError String)

/-- the table after a call; a definition that is refused leaves it as it was -/
def call (t : Table) : Call → Table
  | .insert d =>
    match t.insert d with
    | .ok t' => t'
    | .error _ => t
  | .addSource source => (t.addSource source).1
  | .addInput path read => (t.addInput path read).1

/-- the table after a run of calls -/
def calls (t : Table) (cs : List Call) : Table := cs.foldl call t

variable {t t' : Table} {d : Definition} {tag enum : String}

/-! ## Runs -/

theorem calls_append (t : Table) (cs cs' : List Call) : t.calls (cs ++ cs') = (t.calls cs).calls cs' :=
  List.foldl_append

/-- what every accepted definition and every remembered failure keep, every call keeps -/
theorem call_kept {P : Table → Prop}
    (hinsert : ∀ {t t' : Table} {d : Definition}, P t → t.insert d = .ok t' → P t')
    (hfail : ∀ {t : Table} (e : InputError), P t → P (t.fail e).1) (ht : P t) (c : Call) : P (t.call c) := by
  have hkept : Kept P := ⟨fun ht _ h => hinsert ht h, hfail⟩
  cases c with
  | insert d =>
    rw [call]
    cases h : t.insert d with
    | ok t' => exact hinsert ht h
    | error e => exact ht
  | addSource source => exact hkept.addSource ht source
  | addInput path read => exact hkept.addInput ht path read

theorem calls_kept {P : Table → Prop}
    (hinsert : ∀ {t t' : Table} {d : Definition}, P t → t.insert d = .ok t' → P t')
    (hfail : ∀ {t : Table} (e : InputError), P t → P (t.fail e).1) (ht : P t) (cs : List Call) :
    P (t.calls cs) := by
  induction cs generalizing t with
  | nil => exact ht
  | cons c cs ih => exact ih (call_kept hinsert hfail ht c)

/-! ## Stored definitions stay -/

/-- the definitions of a table are the first ones of the other -/
def Grows (t t' : Table) : Prop := t.definitions.toList <+: t'.definitions.toList

theorem insert_grows (h : t.insert d = .ok t') : t.Grows t' := by
  obtain ⟨-, -, -, rfl⟩ := insert_eq_ok_iff.1 h
  exact ⟨[d], Array.toList_push.symm⟩

theorem calls_grow (t : Table) (cs : List Call) : t.Grows (t.calls cs) := by
  apply calls_kept (P := t.Grows)
  · intro t₁ t₂ d hgrows h
    exact List.IsPrefix.trans hgrows (insert_grows h)
  · intro t₁ e hgrows
    exact hgrows
  · exact List.prefix_rfl

theorem Indexed.calls (ht : t.Indexed) (cs : List Call) : (t.calls cs).Indexed :=
  calls_kept indexed_of_insert (fun _ ht => ht) ht cs

/-! ## Tags -/

/-- the tags of all definitions in order, each with the name of its enum -/
def tagList (t : Table) : List (String × String) := t.definitions.toList.flatMap Definition.tags

/-- the tags are those of the definitions, none of them occurs twice, and none is the name of a definition -/
structure Tagged (t : Table) : Prop where
  keys : ∀ tag enum, t.enumOf? tag = some enum ↔ (tag, enum) ∈ t.tagList
  nodup : (t.tagList.map Prod.fst).Nodup
  ids : ∀ d ∈ t.definitions, t.enumOf? d.id = none

theorem tagged_empty : Table.empty.Tagged := by
  refine ⟨?_, ?_, ?_⟩ <;> simp [enumOf?, tagList, Table.empty]

/-- a definition is refused for a tag that stands twice, is defined in the table or is its own name -/
theorem firstTaken_eq_none_iff {id : String} {seen tags : List String} : t.firstTaken id seen tags = none ↔
    firstRepeat seen tags = none ∧ ∀ tag ∈ tags, t.isDefined tag = false ∧ tag ≠ id := by
  induction tags generalizing seen with
  | nil => simp [firstTaken, firstRepeat]
  | cons tag tags ih =>
    rw [firstTaken, firstRepeat, List.forall_mem_cons]
    by_cases hseen : tag ∈ seen
    · simp [hseen]
    · cases hdefined : t.isDefined tag with
      | true => simp
      | false => by_cases hid : tag = id <;> simp [hid, hseen, ih]

/-- entries with different keys that are added to a map -/
theorem getElem?_foldl_insert {xs : List (String × String)} (hn : (xs.map Prod.fst).Nodup)
    (m : Std.HashMap String String) (k v : String) :
    (xs.foldl (fun m p => m.insert p.1 p.2) m)[k]? = some v ↔
      (k, v) ∈ xs ∨ k ∉ xs.map Prod.fst ∧ m[k]? = some v := by
  induction xs generalizing m with
  | nil => simp
  | cons p xs ih =>
    rw [List.map_cons, List.nodup_cons] at hn
    rw [List.foldl_cons, ih hn.2, Std.HashMap.getElem?_insert, List.map_cons, List.mem_cons, List.mem_cons]
    by_cases hk : p.1 = k
    · subst hk
      have hmem : (p.1, v) ∉ xs := fun h => hn.1 (List.mem_map.2 ⟨_, h, rfl⟩)
      simp [hmem, hn.1, Prod.ext_iff, eq_comm]
    · have hne : (k, v) ≠ p := by
        rintro rfl
        exact hk rfl
      simp [hk, hne, Ne.symm hk]

theorem tagList_extend (t : Table) (d : Definition) : (t.extend d).tagList = t.tagList ++ d.tags := by
  simp [tagList, extend]

/-- a tag of a table, or one of a definition that is added -/
theorem enumOf?_extend (hd : (d.tags.map Prod.fst).Nodup) (tag enum : String) : (t.extend d).enumOf? tag = some enum ↔
    (tag, enum) ∈ d.tags ∨ tag ∉ d.tags.map Prod.fst ∧ t.enumOf? tag = some enum :=
  getElem?_foldl_insert hd t.tags tag enum

theorem enumOf?_eq_none_of_isDefined {x : String} (h : t.isDefined x = false) : t.enumOf? x = none := by
  simp only [isDefined, Bool.or_eq_false_iff] at h
  simpa [enumOf?] using h.2

theorem isDefined_of_mem (ht : t.Indexed) (hd : d ∈ t.definitions) : t.isDefined d.id = true := by
  obtain ⟨i, hi⟩ := Array.getElem?_of_mem hd
  have hindex : t.index[d.id]? = some i := (ht d.id i).2 ⟨d, hi, rfl⟩
  have hcontains : d.id ∈ t.index := Std.HashMap.mem_iff_isSome_getElem?.2 (by rw [hindex]; rfl)
  simp [isDefined, hcontains]

/-- an accepted definition brings tags that are free and different -/
theorem insert_tagged (hi : t.Indexed) (ht : t.Tagged) (h : t.insert d = .ok t') : t'.Tagged := by
  obtain ⟨-, hfree, htaken, rfl⟩ := insert_eq_ok_iff.1 h
  obtain ⟨hrepeat, htags⟩ := firstTaken_eq_none_iff.1 htaken
  obtain ⟨hnodup, -⟩ := firstRepeat_eq_none_iff.1 hrepeat
  have hold : ∀ x ∈ d.tags.map Prod.fst, x ∉ t.tagList.map Prod.fst := by
    intro x hx hmem
    obtain ⟨⟨tag, enum⟩, hold, rfl⟩ := List.mem_map.1 hmem
    have hnone := enumOf?_eq_none_of_isDefined (htags tag hx).1
    rw [(ht.keys tag enum).2 hold] at hnone
    cases hnone
  have hids : ∀ e ∈ t.definitions.push d, e.id ∉ d.tags.map Prod.fst ∧ t.enumOf? e.id = none := by
    intro e he
    rcases Array.mem_push.1 he with he | rfl
    · refine ⟨fun hx => ?_, ht.ids e he⟩
      have hdefined := (htags e.id hx).1
      rw [isDefined_of_mem hi he] at hdefined
      cases hdefined
    · exact ⟨fun hx => (htags e.id hx).2 rfl, enumOf?_eq_none_of_isDefined hfree⟩
  refine ⟨fun tag enum => ?_, ?_, fun e he => ?_⟩
  · rw [enumOf?_extend hnodup, tagList_extend, List.mem_append, ht.keys, or_comm]
    refine or_congr_left (and_iff_right_of_imp fun hmem hx => ?_)
    exact hold tag hx (List.mem_map.2 ⟨_, hmem, rfl⟩)
  · rw [tagList_extend, List.map_append, List.nodup_append']
    exact ⟨ht.nodup, hnodup, fun x hx hx' => hold x hx' hx⟩
  · rw [Option.eq_none_iff_forall_ne_some]
    intro enum henum
    obtain ⟨hnone, hfree⟩ := hids e he
    rcases (enumOf?_extend hnodup e.id enum).1 henum with hmem | ⟨-, hmem⟩
    · exact hnone (List.mem_map.2 ⟨_, hmem, rfl⟩)
    · rw [hfree] at hmem
      cases hmem

theorem Tagged.fail (e : InputError) (ht : t.Tagged) : (t.fail e).1.Tagged := ⟨ht.keys, ht.nodup, ht.ids⟩

theorem Tagged.calls (hi : t.Indexed) (ht : t.Tagged) (cs : List Call) : (t.calls cs).Tagged := by
  have hboth : (t.calls cs).Indexed ∧ (t.calls cs).Tagged := by
    apply calls_kept (P := fun t => t.Indexed ∧ t.Tagged)
    · rintro t₁ t₂ d ⟨hi, ht⟩ h
      exact ⟨indexed_of_insert hi h, insert_tagged hi ht h⟩
    · rintro t₁ e ⟨hi, ht⟩
      exact ⟨hi, ht.fail e⟩
    · exact ⟨hi, ht⟩
  exact hboth.2

/-! ## Consistent tables -/

/-- in the definition at position `i`, at the place `p`, stands the enum of that name, and it has the tag -/
def DefinesAt (t : Table) (i : Nat) (p : List Nat) (tag enum : String) : Prop :=
  ∃ d, t.definitions[i]? = some d ∧ d.DefinesAt p tag enum

/-- the list of definitions, the index and the tags say the same -/
structure Consistent (t : Table) : Prop where
  /-- the index maps a name to a position when the definition there has the name -/
  indexed : ∀ (x : String) (i : Nat), t.index[x]? = some i ↔ ∃ d, t.definitions[i]? = some d ∧ d.id = x
  ids_nodup : (t.definitions.toList.map Definition.id).Nodup
  /-- what is found under a name is the definition of that name -/
  found : ∀ (x : String) (d : Definition), t.get? x = some d ↔ d ∈ t.definitions ∧ d.id = x
  /-- the tags are those of the enums in the definitions, at any depth -/
  tags : ∀ tag enum, t.enumOf? tag = some enum ↔ ∃ i p, t.DefinesAt i p tag enum
  /-- one enum defines a tag -/
  one_enum : ∀ {tag enum enum' : String} {i i' : Nat} {p p' : List Nat}, t.DefinesAt i p tag enum →
    t.DefinesAt i' p' tag enum' → i = i' ∧ p = p'
  /-- names of definitions are no tags -/
  untagged : ∀ d ∈ t.definitions, t.enumOf? d.id = none

theorem mem_tagList_iff : (tag, enum) ∈ t.tagList ↔ ∃ i p, t.DefinesAt i p tag enum := by
  simp only [tagList, List.mem_flatMap, Definition.mem_tags_iff, DefinesAt]
  constructor
  · rintro ⟨d, hd, p, hp⟩
    obtain ⟨i, hi⟩ := Array.getElem?_of_mem (Array.mem_toList_iff.1 hd)
    exact ⟨i, p, d, hi, hp⟩
  · rintro ⟨i, p, d, hi, hp⟩
    exact ⟨d, Array.mem_toList_iff.2 (Array.mem_of_getElem? hi), p, hp⟩

/-- where no tag occurs twice, the places of one tag are one place -/
theorem Tagged.place_unique (ht : t.Tagged) {enum' : String} {i i' : Nat} {p p' : List Nat}
    (h : t.DefinesAt i p tag enum) (h' : t.DefinesAt i' p' tag enum') : i = i' ∧ p = p' := by
  obtain ⟨d, hd, hp⟩ := h
  obtain ⟨d', hd', hp'⟩ := h'
  have hnodup := ht.nodup
  rw [tagList, List.map_flatMap] at hnodup
  rw [← Array.getElem?_toList] at hd hd'
  have hmem : tag ∈ d.tags.map Prod.fst := List.mem_map.2 ⟨_, Definition.mem_tags_of_definesAt hp, rfl⟩
  have hmem' : tag ∈ d'.tags.map Prod.fst := List.mem_map.2 ⟨_, Definition.mem_tags_of_definesAt hp', rfl⟩
  obtain rfl := eq_of_nodup_flatMap hnodup hd hd' hmem hmem'
  obtain rfl := Option.some.inj (hd.symm.trans hd')
  have hone := (List.nodup_flatMap.1 hnodup).1 d (List.mem_of_getElem? hd)
  exact ⟨rfl, Definition.place_unique hone hp hp'⟩

theorem consistent_of_tagged (hi : t.Indexed) (ht : t.Tagged) : t.Consistent where
  indexed := hi
  ids_nodup := hi.ids_nodup
  found _ _ := hi.get?_eq_some_iff
  tags tag enum := (ht.keys tag enum).trans mem_tagList_iff
  one_enum := ht.place_unique
  untagged := ht.ids

/-- **Tables are consistent after every run of calls.** Whatever is added to the empty table, definition by definition,
source by source or file by file, with success or without: the index finds each definition where it stands, the tags are
those of all enums in the definitions, each defined by one enum and none the name of a definition, and what is stored
stays where it is, is found as before and keeps its tags in every run that follows. -/
theorem consistent_after_calls (before after : List Call) :
    (Table.empty.calls before).Consistent ∧
    (Table.empty.calls before).definitions.toList <+: (Table.empty.calls (before ++ after)).definitions.toList ∧
    (∀ x d, (Table.empty.calls before).get? x = some d → (Table.empty.calls (before ++ after)).get? x = some d) ∧
    ∀ tag enum, (Table.empty.calls before).enumOf? tag = some enum →
      (Table.empty.calls (before ++ after)).enumOf? tag = some enum := by
  have hconsistent : ∀ cs, (Table.empty.calls cs).Consistent := fun cs =>
    consistent_of_tagged (indexed_empty.calls cs) (tagged_empty.calls indexed_empty cs)
  have hgrows : (Table.empty.calls before).Grows (Table.empty.calls (before ++ after)) := by
    rw [calls_append]
    exact calls_grow _ after
  refine ⟨hconsistent before, hgrows, fun x d hd => ?_, fun tag enum htag => ?_⟩
  · obtain ⟨hmem, hid⟩ := ((hconsistent before).found x d).1 hd
    rw [← Array.mem_toList_iff] at hmem
    exact ((hconsistent (before ++ after)).found x d).2 ⟨Array.mem_toList_iff.1 (hgrows.subset hmem), hid⟩
  · obtain ⟨i, p, d, hd, hp⟩ := ((hconsistent before).tags tag enum).1 htag
    rw [← Array.getElem?_toList] at hd
    refine ((hconsistent (before ++ after)).tags tag enum).2 ⟨i, p, d, ?_, hp⟩
    obtain ⟨ds, hds⟩ := hgrows
    rw [← Array.getElem?_toList, ← hds, List.getElem?_append_left (List.getElem?_eq_some_iff.1 hd).1, hd]

end Xdr.Table
