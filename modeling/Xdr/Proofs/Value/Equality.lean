/-
When union values compare equal.

Equality looks at the discriminant and at the slot. Accessors fill the slot, and no other step changes it; so what a run
leaves there is what its accessors handed out last, whatever the discriminant selects.
- `slot_run`: after a run the slot holds what was handed out last.
- `beq_iff`: values compare equal exactly when their discriminants are equal and their slots compare equal.
- `beq_fill_iff`: to read an arm leaves a value equal to what it was exactly when the slot held a payload of the arm, and
  one that equals itself.
- `compares_of_run`: what follows for the values that two runs lead to.
-/
import Xdr.Proofs.Value.Union

namespace Xdr

variable {Tag Arm : Type} {Payload : Arm → Type}

/-- the payload that was handed out last, as it was left -/
def lastHanded (answers : List (UnionAnswer Tag Payload)) : Option (Sigma Payload) :=
  (answers.filterMap UnionAnswer.left?).getLast?

/-- two slots compare equal: both empty, or with payloads of one arm that compare equal -/
inductive SameSlot [(a : Arm) → BEq (Payload a)] : Option (Sigma Payload) → Option (Sigma Payload) → Prop
  | empty : SameSlot none none
  | filled {a : Arm} {p q : Payload a} (h : (p == q) = true) : SameSlot (some ⟨a, p⟩) (some ⟨a, q⟩)

namespace UnionValue

variable [DecidableEq Arm] {s : Selection Tag Arm} {create : (a : Arm) → Payload a} {armAt : Tag → Option Arm} {a : Arm}
  {u v : UnionValue Tag Payload}

/-! ## What a run leaves in the slot -/

section

variable [Word32 Tag]

/-- a step leaves in the slot what it hands out, or what was there -/
theorem slot_step (x : UnionStep Payload) :
    (u.step s create x).1.slot = (u.step s create x).2.left?.or u.slot := by
  rcases step_cases s create u x with ⟨hleft, hslot⟩ | ⟨p, hleft, hslot, -⟩
  · rw [hleft, hslot, Option.none_or]
  · rw [hleft, hslot, Option.some_or]

/-- **After a run the slot holds what was handed out last.** -/
theorem slot_run (steps : List (UnionStep Payload)) :
    (u.run s create steps).1.slot = (lastHanded (u.run s create steps).2).or u.slot := by
  induction steps generalizing u with
  | nil => rfl
  | cons x xs ih =>
    rw [run_cons, ih, slot_step, lastHanded, lastHanded, ← Option.or_assoc]
    cases hleft : (u.step s create x).2.left? with
    | none => rw [List.filterMap_cons_none hleft, Option.or_none]
    | some p =>
      rw [List.filterMap_cons_some hleft, List.getLast?_cons]
      cases (((u.step s create x).1.run s create xs).2.filterMap UnionAnswer.left?).getLast? <;> rfl

end

/-! ## What is seen from outside -/

variable [(a : Arm) → BEq (Payload a)]

/-- two values look the same from outside: their discriminants are equal, and where an accessor lets through in both it
hands out payloads that compare equal -/
structure Alike (s : Selection Tag Arm) (create : (a : Arm) → Payload a) (u v : UnionValue Tag Payload) : Prop where
  tag : u.tag = v.tag
  payload : ∀ a u' p v' q, u.access s create a = .ok (u', p) → v.access s create a = .ok (v', q) → (p == q) = true

theorem Alike.beq_found (h : Alike s create u v) (ha : s.admits a u.tag = true) :
    ((u.payload? a).getD (create a) == (v.payload? a).getD (create a)) = true :=
  h.payload a _ _ _ _ (access_eq_ok ha) (access_eq_ok (h.tag ▸ ha))

/-! ## Equality -/

variable [BEq Tag] [LawfulBEq Tag]

theorem beq_iff : (u == v) = true ↔ u.tag = v.tag ∧ SameSlot u.slot v.slot := by
  obtain ⟨t, slot⟩ := u
  obtain ⟨t', slot'⟩ := v
  change (t == t' && _) = true ↔ _
  rw [Bool.and_eq_true, beq_iff_eq]
  refine and_congr_right fun _ => ⟨fun h => ?_, fun h => ?_⟩
  · rcases slot with _ | ⟨a, p⟩ <;> rcases slot' with _ | ⟨b, q⟩
    · exact .empty
    · cases h
    · cases h
    · dsimp only at h
      split_ifs at h with hab
      subst hab
      exact .filled h
  · cases h with
    | empty => rfl
    | filled hpq => simpa using hpq

/-- a value equals what it is after an arm is read when the arm's payload was there, and equals itself -/
theorem beq_fill_iff (create : (a : Arm) → Payload a) (a : Arm) (u : UnionValue Tag Payload) :
    (u == u.fill create a) = true ↔ ∃ p, u.slot = some ⟨a, p⟩ ∧ (p == p) = true := by
  rw [beq_iff, tag_fill, slot_fill, and_iff_right rfl]
  constructor
  · intro h
    generalize hfound : (u.payload? a).getD (create a) = q at h
    cases hslot : u.slot with
    | none =>
      rw [hslot] at h
      cases h
    | some r =>
      rw [hslot] at h
      cases h with
      | @filled _ p _ hp =>
        rw [payload?_of_slot_eq_some hslot, dif_pos rfl] at hfound
        obtain rfl : p = q := hfound
        exact ⟨p, rfl, hp⟩
  · rintro ⟨p, hslot, hp⟩
    rw [payload?_of_slot_eq_some hslot, hslot, dif_pos rfl]
    exact .filled hp

/-- values that look the same are equal once the arm that they open is read in both -/
theorem Alike.beq_fill (h : Alike s create u v) (ha : s.admits a u.tag = true) :
    (u.fill create a == v.fill create a) = true := by
  rw [beq_iff, tag_fill, tag_fill, slot_fill, slot_fill]
  exact ⟨h.tag, .filled (h.beq_found ha)⟩

/-! ## Values that runs lead to -/

/-- how two values compare, after runs that handed out these payloads last -/
structure Compares (s : Selection Tag Arm) (create : (a : Arm) → Payload a) (armAt : Tag → Option Arm)
    (u v : UnionValue Tag Payload) (last last' : Option (Sigma Payload)) : Prop where
  equal_iff : (u == v) = true ↔ u.tag = v.tag ∧ SameSlot last last'
  /-- values that look the same are equal, if both runs went through the selected arm last -/
  alike : ∀ a p q, armAt u.tag = some a → Alike s create u v → last = some ⟨a, p⟩ → last' = some ⟨a, q⟩ →
    (u == v) = true
  /-- values that look the same are equal once the selected arm is read in both -/
  alike_read : ∀ a, armAt u.tag = some a → Alike s create u v → ∃ u' p v' q,
    u.access s create a = .ok (u', p) ∧ v.access s create a = .ok (v', q) ∧ (u' == v') = true
  /-- a value equals what it is after the selected arm is read, if the run went through that arm last and the payload
  equals itself -/
  read_iff : ∀ a, armAt u.tag = some a → ∃ u' p, u.access s create a = .ok (u', p) ∧
    ((u == u') = true ↔ (∃ q, last = some ⟨a, q⟩) ∧ (p == p) = true)

/-- **Values that runs from an empty slot lead to are equal by discriminant and by what was handed out last.** -/
theorem compares_of_run [Word32 Tag] (hs : Selects s armAt) (hslot : u.slot = none)
    (steps steps' : List (UnionStep Payload)) :
    Compares s create armAt (u.run s create steps).1 (u.run s create steps').1
      (lastHanded (u.run s create steps).2) (lastHanded (u.run s create steps').2) := by
  have hlast : ∀ steps, (u.run s create steps).1.slot = lastHanded (u.run s create steps).2 := fun steps => by
    rw [slot_run, hslot, Option.or_none]
  rw [← hlast, ← hlast]
  generalize (u.run s create steps).1 = v
  generalize (u.run s create steps').1 = w
  refine ⟨beq_iff, fun a p q ha halike hp hq => ?_, fun a ha halike => ?_, fun a ha => ?_⟩
  · have hfound := halike.beq_found ((hs.admits a _).2 ha)
    rw [payload?_of_slot_eq_some hp, payload?_of_slot_eq_some hq, dif_pos rfl, dif_pos rfl] at hfound
    rw [beq_iff, hp, hq]
    exact ⟨halike.tag, .filled hfound⟩
  · have hadmits := (hs.admits a _).2 ha
    exact ⟨_, _, _, _, access_eq_ok hadmits, access_eq_ok (halike.tag ▸ hadmits), halike.beq_fill hadmits⟩
  · refine ⟨_, _, access_eq_ok ((hs.admits a _).2 ha), ?_⟩
    rw [beq_fill_iff]
    constructor
    · rintro ⟨p, hp, hself⟩
      rw [payload?_of_slot_eq_some hp, dif_pos rfl]
      exact ⟨⟨p, hp⟩, hself⟩
    · rintro ⟨⟨p, hp⟩, hself⟩
      rw [payload?_of_slot_eq_some hp, dif_pos rfl] at hself
      exact ⟨p, hp, hself⟩

end UnionValue

end Xdr
