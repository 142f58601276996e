/-
Where a definition defines its enum tags.

`d.at? p` is the inline type that the path `p` leads to, under the name that is made for it: each step of a path goes
into the body of one declaration. A tag is defined at a place when an enum stands there that has the tag.
- `mem_tags_iff`: the tags of a definition are those that are defined at some place in it.
- `place_unique`: where no tag occurs twice, a tag is defined at one place only.
-/
import Mathlib.Data.List.Nodup
import Xdr.Proofs.Schema.Nested
import Xdr.Table

namespace Xdr

/-- the inline type that a path of positions among the declarations leads to, under the name made for it -/
def Definition.at? (d : Definition) : List Nat → Option Definition
  | [] => some d
  | k :: p => d.decls[k]?.bind fun m => m.body.bind fun b => (b.rename (d.inlineName m.id)).at? p

/-- at that place of `d` stands the enum of that name, and it has the tag -/
def Definition.DefinesAt (d : Definition) (p : List Nat) (tag enum : String) : Prop :=
  ∃ tags, d.at? p = some (.enum enum tags) ∧ tag ∈ tags.map EnumTag.id

/-- elements of two parts of a list without repetitions are equal only within one part -/
theorem eq_of_nodup_flatMap {α β : Type} {f : α → List β} {xs : List α} (h : (xs.flatMap f).Nodup) {i j : Nat}
    {x y : α} (hi : xs[i]? = some x) (hj : xs[j]? = some y) {b : β} (hx : b ∈ f x) (hy : b ∈ f y) : i = j := by
  obtain ⟨hi', rfl⟩ := List.getElem?_eq_some_iff.1 hi
  obtain ⟨hj', rfl⟩ := List.getElem?_eq_some_iff.1 hj
  have hdisjoint := List.pairwise_iff_getElem.1 (List.nodup_flatMap.1 h).2
  rcases Nat.lt_trichotomy i j with hlt | heq | hgt
  · exact absurd hy (List.disjoint_left.1 (hdisjoint i j hi' hj' hlt) hx)
  · exact heq
  · exact absurd hx (List.disjoint_left.1 (hdisjoint j i hj' hi' hgt) hy)

namespace Definition

/-! ## Tags, step by step -/

/-- the tags of the type declared inline at `m` of `d` -/
def tagsOf (d : Definition) (m : Decl) : List (String × String) :=
  m.body.elim [] fun b => (b.rename (d.inlineName m.id)).tags

theorem tags_rename (d : Definition) (name : String) : (d.rename name).tags = d.tagsAs name := by
  cases d with
  | typedef e =>
    obtain ⟨id, type, q, bound, body⟩ := e
    cases body <;> rfl
  | _ => rfl

theorem declTagsAs_eq (m : Decl) (name : String) : m.tagsAs name = m.body.elim [] fun b => b.tagsAs name := by
  obtain ⟨id, type, q, bound, body⟩ := m
  cases body <;> rw [Decl.tagsAs] <;> rfl

theorem tagsOf_eq (d : Definition) (m : Decl) : d.tagsOf m = m.tagsAs (d.inlineName m.id) := by
  simp only [tagsOf, tags_rename, declTagsAs_eq]

theorem fieldTags_eq (parent : String) (fields : List Decl) :
    fieldTags parent fields = fields.flatMap fun m => m.tagsAs (memberTypeName parent m.id) := by
  induction fields with
  | nil => rfl
  | cons d ds ih => rw [fieldTags, ih, List.flatMap_cons]

theorem armTags_eq (parent : String) (arms : List Arm) :
    armTags parent arms = (arms.map Arm.decl).flatMap fun m => m.tagsAs (memberTypeName parent m.id) := by
  induction arms with
  | nil => rfl
  | cons a as ih =>
    obtain ⟨cases, isDefault, d⟩ := a
    rw [armTags, ih, List.map_cons, List.flatMap_cons]

/-- an enum has its own tags, any other definition those of the types declared in it -/
theorem tags_eq (d : Definition) : (∃ id tags, d = .enum id tags) ∨ d.tags = d.decls.flatMap d.tagsOf := by
  have hmembers : d.decls.flatMap d.tagsOf = d.decls.flatMap fun m => m.tagsAs (d.inlineName m.id) :=
    List.flatMap_congr fun m _ => d.tagsOf_eq m
  rw [hmembers]
  cases d with
  | enum id tags => exact .inl ⟨id, tags, rfl⟩
  | const | program => exact .inr rfl
  | typedef e => exact .inr (List.flatMap_singleton ..).symm
  | struct id fields => exact .inr (fieldTags_eq id fields)
  | union id tagId tagType arms hasDefault => exact .inr (armTags_eq id arms)

theorem mem_tags_enum {id tag enum : String} {tags : List EnumTag} :
    (tag, enum) ∈ (Definition.enum id tags).tags ↔ id = enum ∧ tag ∈ tags.map EnumTag.id := by
  simp only [Definition.tags, tagsAs, List.mem_map, Prod.mk.injEq, Definition.id]
  constructor
  · rintro ⟨g, hg, rfl, rfl⟩
    exact ⟨rfl, g, hg, rfl⟩
  · rintro ⟨rfl, g, hg, rfl⟩
    exact ⟨g, hg, rfl, rfl⟩

/-! ## Places -/

variable {d : Definition} {p p' : List Nat} {tag enum enum' : String}

theorem definesAt_nil : d.DefinesAt [] tag enum ↔ ∃ tags, d = .enum enum tags ∧ tag ∈ tags.map EnumTag.id := by
  simp [DefinesAt, at?]

theorem definesAt_cons {k : Nat} : d.DefinesAt (k :: p) tag enum ↔
    ∃ m b, d.decls[k]? = some m ∧ m.body = some b ∧ (b.rename (d.inlineName m.id)).DefinesAt p tag enum := by
  simp only [DefinesAt, at?, Option.bind_eq_some_iff]
  constructor
  · rintro ⟨tags, ⟨m, hm, b, hb, hat⟩, htag⟩
    exact ⟨m, b, hm, hb, tags, hat, htag⟩
  · rintro ⟨m, b, hm, hb, tags, hat, htag⟩
    exact ⟨tags, ⟨m, hm, b, hb, hat⟩, htag⟩

theorem mem_tagsOf {m : Decl} {b : Definition} (hb : m.body = some b) :
    (tag, enum) ∈ d.tagsOf m ↔ (tag, enum) ∈ (b.rename (d.inlineName m.id)).tags := by
  rw [tagsOf, hb, Option.elim_some]

theorem mem_tags_of_definesAt (h : d.DefinesAt p tag enum) : (tag, enum) ∈ d.tags := by
  induction p generalizing d with
  | nil =>
    obtain ⟨tags, rfl, htag⟩ := definesAt_nil.1 h
    exact mem_tags_enum.2 ⟨rfl, htag⟩
  | cons k p ih =>
    obtain ⟨m, b, hm, hb, h⟩ := definesAt_cons.1 h
    rcases d.tags_eq with ⟨id, tags, rfl⟩ | htags
    · cases hm
    · rw [htags, List.mem_flatMap]
      exact ⟨m, List.mem_of_getElem? hm, (mem_tagsOf hb).2 (ih h)⟩

/-- another name leaves the types that are declared inline as they are -/
theorem exists_decl_of_rename {name : String} {m : Decl} (h : m ∈ (d.rename name).decls) :
    ∃ m' ∈ d.decls, m'.body = m.body := by
  cases d with
  | typedef e =>
    obtain rfl := List.mem_singleton.1 h
    exact ⟨e, List.mem_singleton_self e, rfl⟩
  | _ => exact ⟨m, h, rfl⟩

/-- every tag is defined somewhere; from a definition to the types declared in it, which are smaller under any name -/
theorem exists_definesAt_rename (d : Definition) (name : String) (h : (tag, enum) ∈ (d.rename name).tags) :
    ∃ p, (d.rename name).DefinesAt p tag enum := by
  rcases (d.rename name).tags_eq with ⟨id, tags, heq⟩ | htags
  · rw [heq] at h ⊢
    obtain ⟨rfl, htag⟩ := mem_tags_enum.1 h
    exact ⟨[], definesAt_nil.2 ⟨tags, rfl, htag⟩⟩
  · rw [htags, List.mem_flatMap] at h
    obtain ⟨m, hm, hmem⟩ := h
    cases hb : m.body with
    | none => simp [tagsOf, hb] at hmem
    | some b =>
      obtain ⟨m', hm', hbody⟩ := exists_decl_of_rename hm
      have : sizeOf b < sizeOf d :=
        Nat.lt_trans (Decl.sizeOf_body_lt (hbody.trans hb)) (sizeOf_lt_of_mem_decls hm')
      obtain ⟨p, hp⟩ := exists_definesAt_rename b _ ((mem_tagsOf hb).1 hmem)
      obtain ⟨k, hk⟩ := List.getElem?_of_mem hm
      exact ⟨k :: p, definesAt_cons.2 ⟨m, b, hk, hb, hp⟩⟩
termination_by sizeOf d

/-- the tags of a definition, with the names of their enums, are those that are defined at some place in it -/
theorem mem_tags_iff : (tag, enum) ∈ d.tags ↔ ∃ p, d.DefinesAt p tag enum := by
  constructor
  · intro h
    rw [← d.rename_id] at h ⊢
    exact exists_definesAt_rename d d.id h
  · rintro ⟨p, h⟩
    exact mem_tags_of_definesAt h

/-- a tag that occurs once is defined at one place -/
theorem place_unique (hd : (d.tags.map Prod.fst).Nodup) (h : d.DefinesAt p tag enum)
    (h' : d.DefinesAt p' tag enum') : p = p' := by
  induction p generalizing d p' with
  | nil =>
    obtain ⟨tags, rfl, -⟩ := definesAt_nil.1 h
    cases p' with
    | nil => rfl
    | cons k p' =>
      obtain ⟨m, b, hm, -⟩ := definesAt_cons.1 h'
      cases hm
  | cons k p ih =>
    obtain ⟨m, b, hm, hb, h⟩ := definesAt_cons.1 h
    cases p' with
    | nil =>
      obtain ⟨tags, rfl, -⟩ := definesAt_nil.1 h'
      cases hm
    | cons k' p' =>
      obtain ⟨m', b', hm', hb', h'⟩ := definesAt_cons.1 h'
      rcases d.tags_eq with ⟨id, tags, rfl⟩ | htags
      · cases hm
      rw [htags, List.map_flatMap] at hd
      have hmem := List.mem_map_of_mem (f := Prod.fst) ((mem_tagsOf hb).2 (mem_tags_of_definesAt h))
      have hmem' := List.mem_map_of_mem (f := Prod.fst) ((mem_tagsOf hb').2 (mem_tags_of_definesAt h'))
      obtain rfl := eq_of_nodup_flatMap hd hm hm' hmem hmem'
      obtain rfl := Option.some.inj (hm.symm.trans hm')
      obtain rfl := Option.some.inj (hb.symm.trans hb')
      have hnodup : ((b.rename (d.inlineName m.id)).tags.map Prod.fst).Nodup := by
        simpa [tagsOf, hb] using (List.nodup_flatMap.1 hd).1 m (List.mem_of_getElem? hm)
      rw [ih hnodup h h']

end Definition

end Xdr
