/-
Which arms of a union exclude one another.

Validation wants the labels of a union to be different texts. Different texts may have one value: `1` and `0x1`, or two
constants of that value.
- `admits_both_iff`: two accessors are open at one discriminant exactly when two arms have each a label of its value.
- `exclusive_iff_labelsApart`: the patterns of different arms denote no common value exactly when labels of different
  arms resolve to different integers; then one accessor at most is open at a discriminant.
- `overlap_accepted`: a union that is accepted and has two accessors open at one discriminant.
-/
import Mathlib.Data.List.Pairwise
import Xdr.Code.Reading
import Xdr.Proofs.Emission.Unions

namespace Xdr

open Code

/-! ## Values of patterns -/

/-- the integer that a pattern stands for; none for a name -/
def Code.Pattern.value? : Pattern → Option Int
  | .literal text => Integer.read? text
  | .tagged _ n => some n
  | .name _ => none

/-- the values of a list of patterns -/
def Code.valuesOf (ps : List Pattern) : List Int := ps.filterMap Pattern.value?

/-- a pattern matches the discriminants that have its value -/
def Code.UnionCode.ReadByValue {Tag : Type} (u : UnionCode) (reads : Pattern → Tag → Bool) (num : Tag → Int) : Prop :=
  ∀ p ∈ u.explicit, ∀ v, reads p v = true ↔ p.value? = some (num v)

variable {t : Table} {enum : Option String}

/-- a label becomes a name, its own, when its constants end in no integer -/
theorem pattern_eq_name_iff {id l : String} : t.pattern enum l = .name id ↔ id = l ∧ t.integer? l = none := by
  unfold Table.pattern
  cases t.integer? l with
  | none => simp [eq_comm]
  | some v => cases enum <;> simp

theorem value?_pattern {l : String} (h : (t.integer? l).isSome = true) :
    (t.pattern enum l).value? = t.integer? l := by
  obtain ⟨n, hn⟩ := Option.isSome_iff_exists.1 h
  unfold Table.pattern
  rw [hn]
  cases enum with
  | none => exact hn
  | some e => rfl

theorem mem_valuesOf_pattern {ls : List String} (h : ∀ l ∈ ls, (t.integer? l).isSome = true) (n : Int) :
    n ∈ valuesOf (ls.map (t.pattern enum)) ↔ ∃ l ∈ ls, t.integer? l = some n := by
  simp only [valuesOf, List.mem_filterMap, List.mem_map, exists_exists_and_eq_and]
  constructor
  · rintro ⟨l, hl, hv⟩
    exact ⟨l, hl, (value?_pattern (h l hl)).symm.trans hv⟩
  · rintro ⟨l, hl, hv⟩
    exact ⟨l, hl, (value?_pattern (h l hl)).trans hv⟩

/-- two lists of labels denote a common value when two of them resolve to it -/
theorem valuesOf_disjoint_iff {xs ys : List String} (hx : ∀ l ∈ xs, (t.integer? l).isSome = true)
    (hy : ∀ l ∈ ys, (t.integer? l).isSome = true) :
    (∀ n ∈ valuesOf (xs.map (t.pattern enum)), n ∉ valuesOf (ys.map (t.pattern enum))) ↔
      ∀ l ∈ xs, ∀ l' ∈ ys, t.integer? l ≠ t.integer? l' := by
  constructor
  · intro h l hl l' hl' heq
    obtain ⟨n, hn⟩ := Option.isSome_iff_exists.1 (hx l hl)
    exact h n ((mem_valuesOf_pattern hx n).2 ⟨l, hl, hn⟩) ((mem_valuesOf_pattern hy n).2 ⟨l', hl', heq ▸ hn⟩)
  · intro h n hn hn'
    obtain ⟨l, hl, hv⟩ := (mem_valuesOf_pattern hx n).1 hn
    obtain ⟨l', hl', hv'⟩ := (mem_valuesOf_pattern hy n).1 hn'
    exact h l hl l' hl' (hv.trans hv'.symm)

/-! ## Exclusive arms -/

/-- the patterns of two explicit arms denote no common value -/
def Code.UnionCode.Exclusive (u : UnionCode) : Prop :=
  u.explicitArms.Pairwise fun a b => ∀ n ∈ valuesOf a.patterns, n ∉ valuesOf b.patterns

/-- labels of two explicit arms resolve to different integers -/
def LabelsApart (t : Table) (arms : List Arm) : Prop :=
  (arms.filter fun a => !a.isDefault).Pairwise fun a b =>
    ∀ l ∈ a.cases, ∀ l' ∈ b.cases, t.integer? l ≠ t.integer? l'

/-- an explicit arm has that member and a label of that value -/
def LabelledAt (t : Table) (arms : List Arm) (n : Int) (member : String) : Prop :=
  ∃ a ∈ arms, a.isDefault = false ∧ a.decl.isVoid = false ∧ a.decl.id = member ∧ ∃ l ∈ a.cases, t.integer? l = some n

/-- the labels of a union resolve to integers -/
def LabelsResolve (t : Table) (arms : List Arm) : Prop := ∀ a ∈ arms, ∀ l ∈ a.cases, (t.integer? l).isSome = true

section

variable {u : UnionCode} {id tagId tagType : String} {arms : List Arm} {hasDefault : Bool}

theorem explicitArms_shape (hu : u.IsCodeOf t (.union id tagId tagType arms hasDefault)) :
    u.explicitArms.map UnionArm.shape =
      (arms.filter fun a => !a.isDefault).map (Arm.shape t (t.enumType? tagType)) := by
  obtain ⟨-, -, -, hshape⟩ := hu
  have hfilter := congrArg (List.filter fun s => !s.2.1) hshape
  rw [List.filter_map, List.filter_map] at hfilter
  exact hfilter

theorem exclusive_iff (hu : u.IsCodeOf t (.union id tagId tagType arms hasDefault)) (hl : LabelsResolve t arms) :
    u.Exclusive ↔ LabelsApart t arms := by
  have hpairs : u.Exclusive ↔ (u.explicitArms.map UnionArm.shape).Pairwise fun s s' =>
      ∀ n ∈ valuesOf s.1, n ∉ valuesOf s'.1 := by
    rw [List.pairwise_map]
    rfl
  rw [hpairs, explicitArms_shape hu, List.pairwise_map]
  refine List.Pairwise.iff_of_mem fun {a b} ha hb => ?_
  exact valuesOf_disjoint_iff (hl a (List.mem_filter.1 ha).1) (hl b (List.mem_filter.1 hb).1)

/-! ## Readings by value -/

/-- an explicit pattern is the pattern of a label -/
theorem mem_explicit (hu : u.IsCodeOf t (.union id tagId tagType arms hasDefault)) {p : Pattern} (hp : p ∈ u.explicit) :
    ∃ a ∈ arms, ∃ l ∈ a.cases, t.pattern (t.enumType? tagType) l = p := by
  obtain ⟨b, hb, hpb⟩ := List.mem_flatMap.1 hp
  obtain ⟨-, -, -, hshape⟩ := hu
  obtain ⟨a, ha, hab⟩ := List.mem_map.1 (hshape ▸ List.mem_map_of_mem (UnionCode.mem_explicitArms.1 hb).1)
  have hpatterns : a.cases.map (t.pattern (t.enumType? tagType)) = b.patterns := congrArg Prod.fst hab
  rw [← hpatterns] at hpb
  obtain ⟨l, hl, hlp⟩ := List.mem_map.1 hpb
  exact ⟨a, ha, l, hl, hlp⟩

theorem readByValue_int32 (hu : u.IsCodeOf t (.union id tagId tagType arms hasDefault)) (hl : LabelsResolve t arms)
    (henum : t.enumType? tagType = none) : u.ReadByValue (fun p (v : Int32) => reads p v) Int32.toInt := by
  intro p hp v
  obtain ⟨a, ha, l, hla, rfl⟩ := mem_explicit hu hp
  obtain ⟨n, hn⟩ := Option.isSome_iff_exists.1 (hl a ha l hla)
  have hpattern : t.pattern (t.enumType? tagType) l = .literal (t.resolve l) := by
    unfold Table.pattern
    rw [hn, henum]
  rw [hpattern]
  exact beq_iff_eq

/-! ## Open accessors -/

variable {Tag : Type} {reads : Pattern → Tag → Bool} {num : Tag → Int} {v : Tag} {name name' : String}

/-- an explicit arm matches at the values of its labels -/
theorem labelledAt_iff (hu : u.IsCodeOf t (.union id tagId tagType arms hasDefault)) (hl : LabelsResolve t arms)
    (hreads : u.ReadByValue reads num) : LabelledAt t arms (num v) name ↔
      ∃ a ∈ u.arms, a.isDefault = false ∧ (∃ m, a.payload = some m ∧ m.name = name) ∧
        anyMatches reads a.patterns v = true := by
  have hmatch : ∀ a ∈ u.arms, a.isDefault = false →
      (anyMatches reads a.patterns v = true ↔ num v ∈ valuesOf a.patterns) := by
    intro a ha hd
    simp only [anyMatches, List.any_eq_true, valuesOf, List.mem_filterMap]
    refine exists_congr fun p => and_congr_right fun hp => hreads p ?_ v
    exact List.mem_flatMap.2 ⟨a, UnionCode.mem_explicitArms.2 ⟨ha, hd⟩, hp⟩
  obtain ⟨-, -, -, hshape⟩ := hu
  constructor
  · rintro ⟨b, hb, hd, hvoid, rfl, l, hlab, hn⟩
    obtain ⟨a, ha, hab⟩ := List.mem_map.1 (hshape.symm ▸ List.mem_map_of_mem hb)
    simp only [UnionArm.shape, Arm.shape, hvoid, Bool.false_eq_true, if_false, Prod.mk.injEq,
      Option.map_eq_some_iff] at hab
    obtain ⟨hpatterns, hdefault, hpayload⟩ := hab
    refine ⟨a, ha, hdefault.trans hd, hpayload, (hmatch a ha (hdefault.trans hd)).2 ?_⟩
    rw [hpatterns]
    exact (mem_valuesOf_pattern (hl b hb) _).2 ⟨l, hlab, hn⟩
  · rintro ⟨a, ha, hd, ⟨m, hm, rfl⟩, hany⟩
    obtain ⟨b, hb, hab⟩ := List.mem_map.1 (hshape ▸ List.mem_map_of_mem ha)
    simp only [UnionArm.shape, Arm.shape, hm, Option.map_some, Prod.mk.injEq] at hab
    obtain ⟨hpatterns, hdefault, hpayload⟩ := hab
    obtain ⟨hvoid, hid⟩ : b.decl.isVoid = false ∧ b.decl.id = m.name := by
      cases hv : b.decl.isVoid with
      | true => simp [hv] at hpayload
      | false => simpa [hv] using hpayload
    have hn := (hmatch a ha hd).1 hany
    rw [← hpatterns] at hn
    exact ⟨b, hb, hdefault.trans hd, hvoid, hid, (mem_valuesOf_pattern (hl b hb) _).1 hn⟩

/-- two accessors are open at one discriminant when two arms have each a label of its value -/
theorem admits_both_iff (hproper : u.Proper) (hu : u.IsCodeOf t (.union id tagId tagType arms hasDefault))
    (hl : LabelsResolve t arms) (hreads : u.ReadByValue reads num) (hne : name ≠ name') :
    ((u.selection reads).admits name v = true ∧ (u.selection reads).admits name' v = true) ↔
      LabelledAt t arms (num v) name ∧ LabelledAt t arms (num v) name' := by
  rw [labelledAt_iff hu hl hreads, labelledAt_iff hu hl hreads]
  constructor
  · rintro ⟨h, h'⟩
    obtain ⟨a, ha, m, hm, rfl, hga⟩ := (UnionCode.admits_iff hproper).1 h
    obtain ⟨b, hb, m', hm', rfl, hgb⟩ := (UnionCode.admits_iff hproper).1 h'
    have hab : a ≠ b := by
      rintro rfl
      rw [hm] at hm'
      exact hne (congrArg Member.name (Option.some.inj hm'))
    have hda := UnionCode.not_default_of_both hproper ha hb hab hga hgb
    have hdb := UnionCode.not_default_of_both hproper hb ha hab.symm hgb hga
    rw [UnionCode.guard_explicit_admits hda] at hga
    rw [UnionCode.guard_explicit_admits hdb] at hgb
    exact ⟨⟨a, ha, hda, ⟨m, hm, rfl⟩, hga⟩, b, hb, hdb, ⟨m', hm', rfl⟩, hgb⟩
  · rintro ⟨⟨a, ha, hda, ⟨m, hm, rfl⟩, hga⟩, b, hb, hdb, ⟨m', hm', rfl⟩, hgb⟩
    rw [UnionCode.admits_eq hproper ha hm, UnionCode.admits_eq hproper hb hm',
      UnionCode.guard_explicit_admits hda, UnionCode.guard_explicit_admits hdb]
    exact ⟨hga, hgb⟩

/-- different arms that have labels of one value are not apart -/
theorem eq_of_labelledAt (hapart : LabelsApart t arms) {n : Int} (h : LabelledAt t arms n name)
    (h' : LabelledAt t arms n name') : name = name' := by
  obtain ⟨a, ha, hda, -, rfl, l, hla, hna⟩ := h
  obtain ⟨b, hb, hdb, -, rfl, l', hlb, hnb⟩ := h'
  by_contra hne
  have : Std.Symm fun a b : Arm => ∀ l ∈ a.cases, ∀ l' ∈ b.cases, t.integer? l ≠ t.integer? l' :=
    ⟨fun _ _ h l hl l' hl' heq => h l' hl' l hl heq.symm⟩
  have hfa : a ∈ arms.filter fun a => !a.isDefault := List.mem_filter.2 ⟨ha, by simp [hda]⟩
  have hfb : b ∈ arms.filter fun a => !a.isDefault := List.mem_filter.2 ⟨hb, by simp [hdb]⟩
  have hab : a ≠ b := fun heq => hne (congrArg (fun a => a.decl.id) heq)
  exact hapart.forall hfa hfb hab l hla l' hlb (hna.trans hnb.symm)

end

/-! ## The arms of every union -/

/-- **Arms are exclusive where the labels of different arms differ in value.** For a union at any depth of a definition
in a reachable table, all labels of which resolve, generated under any name and in any state: its patterns are exclusive
exactly when its labels are apart, and two accessors let through at one discriminant exactly when two arms have each a
label of its value, which labels that are apart rule out. -/
theorem exclusive_iff_labelsApart {t : Table} (ht : t.Reachable) {d : Definition} (hd : d ∈ t.definitions)
    {id tagId tagType : String} {arms : List Arm} {hasDefault : Bool}
    (hu : (Definition.union id tagId tagType arms hasDefault).Within d) (hl : LabelsResolve t arms) (name : String)
    (s : Emission) : ∃ u : UnionCode,
      ((Definition.union id tagId tagType arms hasDefault).emitAs t name s).2.fragments.back? = some (.union u) ∧
      u.IsCodeOf t (.union id tagId tagType arms hasDefault) ∧
      (u.Exclusive ↔ LabelsApart t arms) ∧
      ∀ {Tag : Type} {Payload : String → Type} (reads : Pattern → Tag → Bool) (num : Tag → Int)
        (create : (name : String) → Payload name) (x : UnionValue Tag Payload) (a b : String),
        u.ReadByValue reads num → a ≠ b →
          (((x.access (u.selection reads) create a).isOk ∧ (x.access (u.selection reads) create b).isOk) ↔
            LabelledAt t arms (num x.tag) a ∧ LabelledAt t arms (num x.tag) b) ∧
          (LabelsApart t arms →
            ¬ ((x.access (u.selection reads) create a).isOk ∧ (x.access (u.selection reads) create b).isOk)) := by
  obtain ⟨u, -, hcode, hfragments⟩ := emitAs_union t name id tagId tagType arms hasDefault s
  have hproper := proper_of_within ht hd hu hcode
  refine ⟨u, by rw [hfragments, Array.back?_push], hcode, exclusive_iff hcode hl, ?_⟩
  intro Tag Payload reads num create x a b hreads hne
  rw [UnionValue.isOk_access, UnionValue.isOk_access]
  have hboth := admits_both_iff (v := x.tag) hproper hcode hl hreads hne
  exact ⟨hboth, fun hapart h => hne (eq_of_labelledAt hapart (hboth.1 h).1 (hboth.1 h).2)⟩

/-- a label that nothing defines stands for itself -/
theorem integer?_extend_empty {d : Definition} {l : String} (h : d.id ≠ l) :
    (Table.empty.extend d).integer? l = Integer.read? l := by
  simp [Table.integer?, Table.resolve, Table.chase, chaseFrom, Table.get?_extend_empty, h]

theorem enumType?_extend_empty {d : Definition} {type : String} (h : d.id ≠ type) :
    (Table.empty.extend d).enumType? type = none := by
  simp [Table.enumType?, Table.chase, chaseFrom, Table.get?_extend_empty, h]

/-- labels that nothing defines resolve when they are integers -/
theorem labelsResolve_extend_empty {d : Definition} {arms : List Arm}
    (h : ∀ a ∈ arms, ∀ l ∈ a.cases, d.id ≠ l ∧ (Integer.read? l).isSome = true) :
    LabelsResolve (Table.empty.extend d) arms := by
  intro a ha l hl
  rw [integer?_extend_empty (h a ha l hl).1]
  exact (h a ha l hl).2

theorem labelsApart_extend_empty_iff {d : Definition} {arms : List Arm} (h : ∀ a ∈ arms, ∀ l ∈ a.cases, d.id ≠ l) :
    LabelsApart (Table.empty.extend d) arms ↔ (arms.filter fun a => !a.isDefault).Pairwise fun a b =>
      ∀ l ∈ a.cases, ∀ l' ∈ b.cases, Integer.read? l ≠ Integer.read? l' := by
  refine List.Pairwise.iff_of_mem fun {a b} ha hb => ?_
  refine forall₂_congr fun l hl => forall₂_congr fun l' hl' => ?_
  rw [integer?_extend_empty (h a (List.mem_filter.1 ha).1 l hl),
    integer?_extend_empty (h b (List.mem_filter.1 hb).1 l' hl')]

theorem exclusive_iff_labelsApart_sample : LabelsResolve sampleTable sampleArms ∧
    ∃ u : UnionCode, (sampleUnion.emitAs sampleTable "U" {}).2.fragments.back? = some (.union u) ∧ u.Exclusive ∧
      ∀ {Payload : String → Type} (create : (name : String) → Payload name) (x : UnionValue Int32 Payload),
        ¬ ((x.access (u.selection fun p v => reads p v) create "a").isOk ∧
          (x.access (u.selection fun p v => reads p v) create "b").isOk) := by
  have hl : LabelsResolve sampleTable sampleArms := by
    rw [sampleTable_eq]
    exact labelsResolve_extend_empty (by decide)
  have hapart : LabelsApart sampleTable sampleArms := by
    rw [sampleTable_eq]
    exact (labelsApart_extend_empty_iff (by decide)).2 (by decide)
  have henum : sampleTable.enumType? "int" = none := by
    rw [sampleTable_eq]
    exact enumType?_extend_empty (by decide)
  obtain ⟨u, hu, hcode, hexclusive, hopen⟩ :=
    exclusive_iff_labelsApart (.addSource .empty _) mem_sampleTable (.self sampleUnion) hl "U" {}
  refine ⟨hl, u, hu, hexclusive.2 hapart, fun create x => ?_⟩
  exact (hopen _ _ create x "a" "b" (readByValue_int32 hcode hl henum) (by decide)).2 hapart

/-- a union with two labels of one value -/
def overlapArms : List Arm :=
  [⟨["1"], false, ⟨"a", "int", .scalar, "", none⟩⟩, ⟨["0x1"], false, ⟨"b", "int", .scalar, "", none⟩⟩]

def overlapUnion : Definition := .union "U" "t" "int" overlapArms false

/-- **A union is accepted, its labels resolve, and two of its accessors let through at one discriminant.** -/
theorem overlap_accepted :
    Table.empty.addSource (schemaText [overlapUnion]) = (Table.empty.extend overlapUnion, .ok 1) ∧
    LabelsResolve (Table.empty.extend overlapUnion) overlapArms ∧
    ∃ u : UnionCode,
      (overlapUnion.emitAs (Table.empty.extend overlapUnion) "U" {}).2.fragments.back? = some (.union u) ∧
      ¬ u.Exclusive ∧
      ∀ {Payload : String → Type} (create : (name : String) → Payload name) (x : UnionValue Int32 Payload), x.tag = 1 →
        (x.access (u.selection fun p v => reads p v) create "a").isOk ∧
          (x.access (u.selection fun p v => reads p v) create "b").isOk := by
  have hl : LabelsResolve (Table.empty.extend overlapUnion) overlapArms := labelsResolve_extend_empty (by decide)
  have hoverlap : ¬ LabelsApart (Table.empty.extend overlapUnion) overlapArms := by
    rw [labelsApart_extend_empty_iff (by decide)]
    decide
  obtain ⟨u, -, hcode, hfragments⟩ :=
    emitAs_union (Table.empty.extend overlapUnion) "U" "U" "t" "int" overlapArms false {}
  have hproper := proper_of_isCodeOf (by decide) rfl hcode
  have ha : LabelledAt (Table.empty.extend overlapUnion) overlapArms 1 "a" :=
    ⟨_, List.mem_cons_self, rfl, rfl, rfl, "1", List.mem_cons_self,
      (integer?_extend_empty (by decide)).trans (by decide)⟩
  have hb : LabelledAt (Table.empty.extend overlapUnion) overlapArms 1 "b" :=
    ⟨_, List.mem_cons_of_mem _ List.mem_cons_self, rfl, rfl, rfl, "0x1", List.mem_cons_self,
      (integer?_extend_empty (by decide)).trans (by decide)⟩
  refine ⟨Table.addSource_schemaText (by decide) rfl rfl, hl, u, ?_, ?_, fun create x hx => ?_⟩
  · exact (congrArg Array.back? hfragments).trans Array.back?_push
  · exact fun h => hoverlap ((exclusive_iff hcode hl).1 h)
  · rw [UnionValue.isOk_access, UnionValue.isOk_access]
    refine (admits_both_iff hproper hcode hl (readByValue_int32 hcode hl (enumType?_extend_empty (by decide)))
      (by decide)).2 ?_
    rw [hx]
    exact ⟨ha, hb⟩

end Xdr
