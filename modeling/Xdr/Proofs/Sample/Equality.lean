/-
When the unions of the sample schema compare equal.

Their equality is made from the discriminant and the slot, and a slot may be empty or hold the payload of an arm that is
not selected; values that look the same from outside need not be equal.
- `unions_equal_by_slot`: how the values compare that runs from the default lead to.
- `alike_unequal`: values that look the same and are not equal, one read and one not.
-/
import Xdr.Proofs.Sample.Union
import Xdr.Proofs.Value.Equality

namespace Xdr.Sample

open UnionValue

/-- after all runs from `start`, values compare by discriminant and by what the runs handed out last -/
def EqualBySlot {Tag Arm : Type} [DecidableEq Arm] [Word32 Tag] [BEq Tag] {Payload : Arm → Type}
    [(a : Arm) → BEq (Payload a)] (s : Selection Tag Arm) (create : (a : Arm) → Payload a) (armAt : Tag → Option Arm)
    (start : UnionValue Tag Payload) : Prop :=
  ∀ steps steps', Compares s create armAt (start.run s create steps).1 (start.run s create steps').1
    (lastHanded (start.run s create steps).2) (lastHanded (start.run s create steps').2)

/-- **The unions of the schema are equal by discriminant and slot.** The values that two runs from the default lead to
compare equal exactly when their discriminants are equal and what the runs handed out last compares equal: nothing, or
payloads of one arm. Of values that look the same, those are equal whose runs went through the selected arm last, and all
are once the selected arm is read in both. A value equals what it is after the selected arm is read exactly when the run
went through that arm last, and the payload equals itself. -/
theorem unions_equal_by_slot :
    EqualBySlot U.selection U.create U.armAt ({ tag := 0 } : U) ∧
    EqualBySlot Strict.selection Strict.create Strict.armAt ({ tag := 0 } : Strict) ∧
    EqualBySlot Maybe.selection Maybe.create Maybe.armAt ({ tag := false } : Maybe) ∧
    EqualBySlot Paint.selection Paint.create Paint.armAt ({ tag := {} } : Paint) ∧
    EqualBySlot Extra.selection Extra.create Extra.armAt ({} : Record).extra :=
  ⟨compares_of_run U.selects rfl, compares_of_run Strict.selects rfl, compares_of_run Maybe.selects rfl,
    compares_of_run Paint.selects rfl, compares_of_run Extra.selects rfl⟩

/-- the value that steps from the default lead to -/
def Strict.after (steps : List (UnionStep Strict.Payload)) : Strict :=
  (({ tag := 0 } : Strict).run Strict.selection Strict.create steps).1

/-- **Values look the same and are not equal.** The first two have an arm selected, and it is read, without a change, in
one of them only; the others have a void arm selected, after that. -/
theorem alike_unequal :
    Alike Strict.selection Strict.create (Strict.after [.setTag 1]) (Strict.after [.setTag 1, .access .small .ok]) ∧
    (Strict.after [.setTag 1] == Strict.after [.setTag 1, .access .small .ok]) = false ∧
    Alike Strict.selection Strict.create (Strict.after [.setTag 3])
      (Strict.after [.setTag 1, .access .small .ok, .setTag 3]) ∧
    (Strict.after [.setTag 3] == Strict.after [.setTag 1, .access .small .ok, .setTag 3]) = false := by
  refine ⟨⟨rfl, ?_⟩, by decide, ⟨rfl, ?_⟩, by decide⟩
  · rintro ⟨⟩ u' p v' q hp hq
    cases hp
    cases hq
    rfl
  · rintro ⟨⟩ u' p v' q hp hq
    cases hp

end Xdr.Sample
