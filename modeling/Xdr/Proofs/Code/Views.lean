/-
The views of a generated union agree.

An accessor, the test for validity and the dispatch choose among the arms from different data: the arm alone and the
number of arms, the flag for a default arm, the explicit arms in order. `Proper` is what validation and the grammar say
of a union; under it the three make one choice, `selected?`, for every reading of the patterns.
- `validity_admits_iff`: a discriminant is valid when a default arm or a matching explicit arm exists.
- `dispatched_eq`: the dispatch calls the accessor of the selected arm.
- `guard_default_admits`: a default arm is open exactly where no explicit arm matches.
- `guard_admits_of_selected`: the accessor of the selected arm lets through.
- `Proper.viewsAgree`: all of it, for values with any slot.
-/
import Mathlib.Tactic.ByContra
import Mathlib.Tactic.SplitIfs
import Xdr.Code.Union
import Xdr.Proofs.Value.Union

namespace Xdr.Code

/-- every list of patterns that stands in a text has one pattern at least -/
def Guard.Written : Guard → Prop
  | .always => True
  | .among ps => ps ≠ []
  | .outside ps => ps ≠ []

namespace UnionCode

/-- what the code of every valid union has -/
structure Proper (u : UnionCode) : Prop where
  some_arm : u.arms ≠ []
  hasDefault : u.hasDefault = u.arms.any UnionArm.isDefault
  one_default : (u.arms.filter UnionArm.isDefault).length ≤ 1
  labelled : ∀ a ∈ u.arms, a.isDefault = false → a.patterns ≠ []
  accessors : (u.payloads.map Member.name).Nodup

variable {u : UnionCode} {a : UnionArm} {m : Member} {Tag : Type} {reads : Pattern → Tag → Bool} {v : Tag}

/-- the arm that a discriminant selects: the first explicit one that matches, else the default arm -/
def selected? (u : UnionCode) (reads : Pattern → Tag → Bool) (v : Tag) : Option UnionArm :=
  (u.explicitArms.find? fun a => anyMatches reads a.patterns v).or (u.arms.find? UnionArm.isDefault)

/-! ## Explicit arms -/

theorem mem_explicitArms : a ∈ u.explicitArms ↔ a ∈ u.arms ∧ a.isDefault = false := by
  simp [explicitArms]

theorem anyMatches_explicit : anyMatches reads u.explicit v = true ↔
    ∃ a ∈ u.arms, a.isDefault = false ∧ anyMatches reads a.patterns v = true := by
  simp only [explicit, anyMatches, List.any_flatMap, List.any_eq_true (l := u.explicitArms), mem_explicitArms,
    and_assoc]

/-- no explicit arm matches -/
theorem anyMatches_explicit_eq_false : anyMatches reads u.explicit v = false ↔
    ∀ a ∈ u.arms, a.isDefault = false → anyMatches reads a.patterns v = false := by
  rw [Bool.eq_false_iff, ne_eq, anyMatches_explicit]
  simp

/-- a proper union has an explicit arm, or its only arm is the default one -/
theorem Proper.explicit_ne_nil (hu : u.Proper) (h : u.hasDefault = false ∨ 1 < u.arms.length) : u.explicit ≠ [] := by
  obtain ⟨a, ha, hd⟩ : ∃ a ∈ u.arms, a.isDefault = false := by
    by_contra hall
    simp only [not_exists, not_and, Bool.not_eq_false] at hall
    have hfilter : u.arms.filter UnionArm.isDefault = u.arms := List.filter_eq_self.2 hall
    have hlen := hu.one_default
    rw [hfilter] at hlen
    rcases h with h | h
    · obtain ⟨b, hb⟩ := List.exists_mem_of_ne_nil _ hu.some_arm
      rw [hu.hasDefault] at h
      exact absurd (List.any_eq_true.2 ⟨b, hb, hall b hb⟩) (by rw [h]; decide)
    · omega
  intro hnil
  rw [explicit, List.flatMap_eq_nil_iff] at hnil
  exact hu.labelled a ha hd (hnil a (mem_explicitArms.2 ⟨ha, hd⟩))

/-! ## Validity -/

theorem validity_admits_iff (hu : u.Proper) : u.validity.admits reads v = true ↔
    (∃ a ∈ u.arms, a.isDefault = true) ∨ ∃ a ∈ u.arms, a.isDefault = false ∧ anyMatches reads a.patterns v = true := by
  rw [← anyMatches_explicit, ← List.any_eq_true, ← hu.hasDefault, validity]
  cases u.hasDefault <;> simp [Guard.admits]

/-! ## Accessors -/

theorem find?_accessor {arms : List UnionArm} (hn : ((arms.filterMap UnionArm.payload).map Member.name).Nodup)
    (ha : a ∈ arms) (hm : a.payload = some m) :
    arms.find? (fun b => b.payload.any fun m' => m'.name == m.name) = some a := by
  induction arms with
  | nil => cases ha
  | cons b bs ih =>
    cases hb : b.payload with
    | none =>
      have hne : a ≠ b := by
        rintro rfl
        rw [hm] at hb
        cases hb
      rw [List.find?_cons_of_neg (by simp [hb])]
      rw [List.filterMap_cons_none hb] at hn
      exact ih hn ((List.mem_cons.1 ha).resolve_left hne)
    | some m' =>
      rw [List.filterMap_cons_some hb, List.map_cons, List.nodup_cons] at hn
      rcases List.mem_cons.1 ha with rfl | ha
      · rw [List.find?_cons_of_pos (by simp [hm])]
      · have hne : m'.name ≠ m.name := by
          intro heq
          refine hn.1 (heq ▸ List.mem_map_of_mem (List.mem_filterMap.2 ⟨a, ha, hm⟩))
        rw [List.find?_cons_of_neg (by simp [hb, hne])]
        exact ih hn.2 ha

/-- an accessor has the guard of its arm -/
theorem admits_eq (hu : u.Proper) (ha : a ∈ u.arms) (hm : a.payload = some m) :
    (u.selection reads).admits m.name v = (u.guard a).admits reads v := by
  have harm : u.armOf? m.name = some a := find?_accessor hu.accessors ha hm
  simp [selection, harm]

/-- a name is open when an arm with a payload of that name is -/
theorem admits_iff (hu : u.Proper) {name : String} : (u.selection reads).admits name v = true ↔
    ∃ a ∈ u.arms, ∃ m, a.payload = some m ∧ m.name = name ∧ (u.guard a).admits reads v = true := by
  constructor
  · intro h
    change (u.armOf? name).any _ = true at h
    cases harm : u.armOf? name with
    | none =>
      rw [harm] at h
      cases h
    | some a =>
      rw [harm] at h
      have hname := List.find?_some harm
      cases hm : a.payload with
      | none => simp [hm] at hname
      | some m => exact ⟨a, List.mem_of_find?_eq_some harm, m, hm, by simpa [hm] using hname, h⟩
  · rintro ⟨a, ha, m, hm, rfl, hguard⟩
    rwa [admits_eq hu ha hm]

theorem guard_default_admits (ha : a ∈ u.arms) (hd : a.isDefault = true) : (u.guard a).admits reads v = true ↔
    ∀ b ∈ u.arms, b.isDefault = false → anyMatches reads b.patterns v = false := by
  rw [← anyMatches_explicit_eq_false, guard, if_pos hd]
  split_ifs with hlen
  · simp [Guard.admits]
  · -- the default arm is the only one, so there is no explicit pattern at all
    have hone : u.arms = [a] := by
      obtain ⟨b, hb⟩ := List.length_eq_one_iff.1 (Nat.le_antisymm (Nat.not_lt.1 hlen) (List.length_pos_of_mem ha))
      rw [hb] at ha ⊢
      rw [List.mem_singleton.1 ha]
    simp [explicit, explicitArms, hone, hd, Guard.admits, anyMatches]

theorem guard_explicit_admits (hd : a.isDefault = false) :
    (u.guard a).admits reads v = anyMatches reads a.patterns v := by
  simp [guard, hd, Guard.admits]

/-- of two arms that are open at one discriminant, neither is the default arm -/
theorem not_default_of_both {b : UnionArm} (hu : u.Proper) (ha : a ∈ u.arms) (hb : b ∈ u.arms) (hab : a ≠ b)
    (h : (u.guard a).admits reads v = true) (h' : (u.guard b).admits reads v = true) : a.isDefault = false := by
  by_contra hd
  rw [Bool.not_eq_false] at hd
  cases hdb : b.isDefault with
  | true =>
    have hma : a ∈ u.arms.filter UnionArm.isDefault := List.mem_filter.2 ⟨ha, hd⟩
    have hmb : b ∈ u.arms.filter UnionArm.isDefault := List.mem_filter.2 ⟨hb, hdb⟩
    obtain ⟨c, hc⟩ := List.length_eq_one_iff.1 (Nat.le_antisymm hu.one_default (List.length_pos_of_mem hma))
    rw [hc, List.mem_singleton] at hma hmb
    exact absurd (hma.trans hmb.symm) hab
  | false =>
    have hnone := (guard_default_admits ha hd).1 h b hb hdb
    rw [guard_explicit_admits hdb, hnone] at h'
    cases h'

/-! ## The dispatch -/

/-- the dispatch calls the accessor of the selected arm -/
theorem dispatched_eq (u : UnionCode) (reads : Pattern → Tag → Bool) (v : Tag) :
    u.dispatched reads v = ((u.selected? reads v).bind UnionArm.payload).map Member.name := by
  have hcases : (u.cases.find? fun c => anyMatches reads c.1 v) =
      (u.explicitArms.find? fun a => anyMatches reads a.patterns v).map
        fun a => (a.patterns, a.payload.map Member.name) := by
    rw [cases, List.find?_map]
    rfl
  rw [dispatched, hcases, selected?, fallback]
  cases u.explicitArms.find? fun a => anyMatches reads a.patterns v with
  | some a => rfl
  | none => cases u.arms.find? UnionArm.isDefault <;> rfl

theorem mem_of_selected (h : u.selected? reads v = some a) : a ∈ u.arms := by
  rcases Option.or_eq_some_iff.1 h with h | ⟨-, h⟩
  · exact (mem_explicitArms.1 (List.mem_of_find?_eq_some h)).1
  · exact List.mem_of_find?_eq_some h

/-- the accessor of the selected arm lets through -/
theorem guard_admits_of_selected (h : u.selected? reads v = some a) : (u.guard a).admits reads v = true := by
  rcases Option.or_eq_some_iff.1 h with h | ⟨hnone, h⟩
  · have hd := (mem_explicitArms.1 (List.mem_of_find?_eq_some h)).2
    rw [guard_explicit_admits hd]
    exact List.find?_some (p := fun b : UnionArm => anyMatches reads b.patterns v) h
  · refine (guard_default_admits (List.mem_of_find?_eq_some h) (List.find?_some h)).2 fun b hb hd => ?_
    simpa using List.find?_eq_none.1 hnone b (mem_explicitArms.2 ⟨hb, hd⟩)

/-! ## Values -/

variable {Payload : String → Type} {create : (name : String) → Payload name} {x : UnionValue Tag Payload}

/-- the three views of a union make one choice, for every reading of its patterns and every value -/
structure ViewsAgree (u : UnionCode) : Prop where
  /-- the test for validity holds where an arm is selected -/
  valid : ∀ {Tag : Type} (reads : Pattern → Tag → Bool) (v : Tag), (u.selection reads).valid v = true ↔
    (∃ a ∈ u.arms, a.isDefault = true) ∨ ∃ a ∈ u.arms, a.isDefault = false ∧ anyMatches reads a.patterns v = true
  /-- the dispatch never stops: it gives nothing, or what the accessor of the selected arm gives -/
  body : ∀ {Tag : Type} {Payload : String → Type} (reads : Pattern → Tag → Bool)
    (create : (name : String) → Payload name) (x : UnionValue Tag Payload),
    match (u.selected? reads x.tag).bind UnionArm.payload with
    | none => x.body (u.selection reads) create = .ok (x, none)
    | some m => ∃ y p, x.access (u.selection reads) create m.name = .ok (y, p) ∧
      x.body (u.selection reads) create = .ok (y, some ⟨m.name, p⟩)
  /-- the accessor of a default arm lets through where no explicit arm matches -/
  default_admits : ∀ {Tag : Type} (reads : Pattern → Tag → Bool) (v : Tag), ∀ a ∈ u.arms, a.isDefault = true →
    ∀ m, a.payload = some m → ((u.selection reads).admits m.name v = true ↔
      ∀ b ∈ u.arms, b.isDefault = false → anyMatches reads b.patterns v = false)
  /-- the accessor of an explicit arm lets through where the arm matches -/
  explicit_admits : ∀ {Tag : Type} (reads : Pattern → Tag → Bool) (v : Tag), ∀ a ∈ u.arms, a.isDefault = false →
    ∀ m, a.payload = some m → ((u.selection reads).admits m.name v = true ↔ anyMatches reads a.patterns v = true)
  /-- after it let through, an accessor finds a payload of its arm -/
  filled : ∀ {Tag : Type} {Payload : String → Type} (reads : Pattern → Tag → Bool)
    (create : (name : String) → Payload name) (x : UnionValue Tag Payload) (a b : String),
    x.access (u.selection reads) create a ≠ .error (.unfilled b)
  /-- every list of patterns in the text has a pattern -/
  written : u.validity.Written ∧ (∀ a ∈ u.arms, (u.guard a).Written) ∧ ∀ c ∈ u.cases, c.1 ≠ []

theorem body_eq_of_dispatched {name : String} (h : u.dispatched reads x.tag = some name)
    (hadmits : (u.selection reads).admits name x.tag = true) : ∃ y p,
    x.access (u.selection reads) create name = .ok (y, p) ∧
      x.body (u.selection reads) create = .ok (y, some ⟨name, p⟩) := by
  refine ⟨_, _, UnionValue.access_eq_ok hadmits, ?_⟩
  have hbody : (u.selection reads).body x.tag = some name := h
  rw [UnionValue.body, hbody]
  simp only [UnionValue.access_eq_ok hadmits]
  rfl

/-- **The views of a proper union agree.** -/
theorem Proper.viewsAgree (hu : u.Proper) : u.ViewsAgree where
  valid reads v := validity_admits_iff hu
  body reads create x := by
    have hdisp := u.dispatched_eq reads x.tag
    split
    · next hnone =>
      have hbody : (u.selection reads).body x.tag = none := hdisp.trans (by rw [hnone, Option.map_none])
      rw [UnionValue.body, hbody]
    · next m hm =>
      obtain ⟨a, hs, hpayload⟩ := Option.bind_eq_some_iff.1 hm
      have hname : u.dispatched reads x.tag = some m.name := by
        rw [hdisp, hm, Option.map_some]
      refine body_eq_of_dispatched hname ?_
      rw [admits_eq hu (mem_of_selected hs) hpayload]
      exact guard_admits_of_selected hs
  default_admits reads v a ha hd m hm := by
    rw [admits_eq hu ha hm]
    exact guard_default_admits ha hd
  explicit_admits reads v a ha hd m hm := by
    rw [admits_eq hu ha hm, guard_explicit_admits hd]
  filled reads create x a b := UnionValue.access_ne_unfilled _ create a b x
  written := by
    refine ⟨?_, fun a ha => ?_, fun c hc => ?_⟩
    · cases hd : u.hasDefault with
      | true => simp [validity, hd, Guard.Written]
      | false => simpa [validity, hd, Guard.Written] using hu.explicit_ne_nil (.inl hd)
    · cases hd : a.isDefault with
      | true =>
        rw [guard, if_pos hd]
        split_ifs with hlen
        · exact hu.explicit_ne_nil (.inr hlen)
        · trivial
      | false => simpa [guard, hd, Guard.Written] using hu.labelled a ha hd
    · obtain ⟨a, ha, rfl⟩ := List.mem_map.1 hc
      obtain ⟨hmem, hd⟩ := mem_explicitArms.1 ha
      exact hu.labelled a hmem hd

end UnionCode

end Xdr.Code
