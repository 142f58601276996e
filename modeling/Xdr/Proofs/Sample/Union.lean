/-
The unions of the sample schema keep their payloads.

`armAt` says for each of them which arm a discriminant selects, as the schema does; the code selects the same.
- `unions_keep_payloads`: after every run from the default, each of them keeps what the run left in it.
-/
import Mathlib.Tactic.SplitIfs
import Xdr.Proofs.Value.Union
import Xdr.Sample.Record

namespace Xdr.Sample

open Code UnionValue

/-! ## Patterns of the schema -/

theorem reads_literal {text : String} {n : Int32} (h : Integer.read? text = some n.toInt) (v : Int32) :
    reads (.literal text) v = decide (v = n) := by
  rw [Bool.eq_iff_iff, decide_eq_true_iff]
  change (Integer.read? text == some v.toInt) = true ↔ v = n
  rw [h, beq_iff_eq, Option.some.injEq, Int32.toInt_inj, eq_comm]

theorem reads_color {tag : String} {n : Int32} (h : colorType.tags.filter (fun t => t.2 == tag) = [(n, tag)])
    (v : Color) : reads (.name tag) v = decide (v = ⟨n⟩) := by
  have hany : reads (.name tag) v = (colorType.tags.filter fun t => t.2 == tag).any fun t => t.1 == v.code := by
    rw [List.any_filter]
    rfl
  obtain ⟨code⟩ := v
  rw [hany, h, List.any_cons, List.any_nil, Bool.or_false, Bool.eq_iff_iff, beq_iff_eq, decide_eq_true_iff,
    EnumValue.mk.injEq, eq_comm]

section

variable {Arm Tag : Type} [Discriminant Tag]

theorem selection_admits (t : UnionType Arm) (a : Arm) (v : Tag) : t.selection.admits a v =
    (t.code.armOf? (t.accessor a)).any fun x => (t.code.guard x).admits (fun p v => reads p v) v := rfl

theorem selection_body (t : UnionType Arm) (v : Tag) : t.selection.body v =
    (t.code.dispatched (fun p v => reads p v) v).bind fun name => t.arms.find? fun a => t.accessor a == name := rfl

end

/-! ## Selected arms -/

def U.armAt (v : Int32) : Option U.Arm := if v = 1 then some .a else if v = 2 then some .b else some .c

def Strict.armAt (v : Int32) : Option Strict.Arm := if v = 1 ∨ v = 2 then some .small else none

def Maybe.armAt (v : Bool) : Option Maybe.Arm := if v then some .color else none

def Paint.armAt (v : Color) : Option Paint.Arm :=
  if v = red then some .redLevel else if v = green then some .greenLevel else none

def Extra.armAt (v : Color) : Option Extra.Arm := if v = red then some .r else none

theorem U.selects : Selects U.selection U.armAt := by
  have h1 : ∀ v : Int32, reads (.literal "1") v = decide (v = 1) := reads_literal (by decide)
  have h2 : ∀ v : Int32, reads (.literal "2") v = decide (v = 2) := reads_literal (by decide)
  constructor
  · intro arm v
    rw [selection, selection_admits, armAt]
    split_ifs <;> cases arm <;>
      simp [type, UnionCode.armOf?, UnionCode.guard, UnionCode.explicit, UnionCode.explicitArms, Guard.admits,
        anyMatches, *]
  · intro v
    rw [selection, selection_body, UnionCode.dispatched, armAt]
    split_ifs <;>
      simp [type, UnionCode.cases, UnionCode.explicitArms, UnionCode.fallback, anyMatches, List.find?_cons, *]

theorem Strict.selects : Selects Strict.selection Strict.armAt := by
  have h1 : ∀ v : Int32, reads (.literal "1") v = decide (v = 1) := reads_literal (by decide)
  have h2 : ∀ v : Int32, reads (.literal "2") v = decide (v = 2) := reads_literal (by decide)
  have h3 : ∀ v : Int32, reads (.literal "3") v = decide (v = 3) := reads_literal (by decide)
  constructor
  · intro arm v
    cases arm
    rw [selection, selection_admits, armAt]
    simp [type, UnionCode.armOf?, UnionCode.guard, Guard.admits, anyMatches, h1, h2, or_iff_not_imp_left]
  · intro v
    by_cases hv : v = 3
    · subst hv
      decide
    rw [selection, selection_body, UnionCode.dispatched, armAt]
    split_ifs <;>
      simp [type, UnionCode.cases, UnionCode.explicitArms, UnionCode.fallback, anyMatches, List.find?_cons, *]

theorem Maybe.selects : Selects Maybe.selection Maybe.armAt := by
  constructor
  · intro arm v
    cases arm
    cases v <;> decide
  · intro v
    cases v <;> decide

theorem Paint.selects : Selects Paint.selection Paint.armAt := by
  have hred : ∀ v : Color, reads (.name "RED") v = decide (v = red) := reads_color (by decide)
  have hgreen : ∀ v : Color, reads (.name "GREEN") v = decide (v = green) := reads_color (by decide)
  have hne : red ≠ green ∧ green ≠ red := by decide
  constructor
  · intro arm v
    rw [selection, selection_admits, armAt]
    split_ifs <;> cases arm <;> simp [type, UnionCode.armOf?, UnionCode.guard, Guard.admits, anyMatches, *]
  · intro v
    rw [selection, selection_body, UnionCode.dispatched, armAt]
    split_ifs <;>
      simp [type, UnionCode.cases, UnionCode.explicitArms, UnionCode.fallback, anyMatches, List.find?_cons, *]

theorem Extra.selects : Selects Extra.selection Extra.armAt := by
  have hred : ∀ v : Color, reads (.name "RED") v = decide (v = red) := reads_color (by decide)
  constructor
  · intro arm v
    cases arm
    rw [selection, selection_admits, armAt]
    simp [type, UnionCode.armOf?, UnionCode.guard, Guard.admits, anyMatches, hred]
  · intro v
    rw [selection, selection_body, UnionCode.dispatched, armAt]
    split_ifs <;>
      simp [type, UnionCode.cases, UnionCode.explicitArms, UnionCode.fallback, anyMatches, List.find?_cons, *]

/-! ## Words that are no discriminant -/

theorem ofWord_int32 (w : UInt32) : (∃ e, (Word32.ofWord w : Except ValueError Int32) = .error e) ↔ False :=
  iff_of_false nofun id

theorem ofWord_color (w : UInt32) : (∃ e, (Word32.ofWord w : Except ValueError Color) = .error e) ↔ False :=
  iff_of_false nofun id

theorem ofWord_bool (w : UInt32) : (∃ e, (Word32.ofWord w : Except ValueError Bool) = .error e) ↔ w ≠ 0 ∧ w ≠ 1 := by
  have hword : (Word32.ofWord w : Except ValueError Bool) =
      if w = 0 then .ok false else if w = 1 then .ok true else .error (.notBool w) := rfl
  rw [hword]
  split_ifs <;> simp [*]

/-! ## Runs from the default -/

/-- after every run from `start`, the value keeps what the run left in it -/
def KeepsPayloads {Tag Arm : Type} [DecidableEq Arm] [Word32 Tag] {Payload : Arm → Type} (s : Selection Tag Arm)
    (create : (a : Arm) → Payload a) (armAt : Tag → Option Arm) (rejects : UInt32 → Prop)
    (start : UnionValue Tag Payload) : Prop :=
  ∀ steps, Kept s create armAt rejects (start.run s create steps).1 (start.history s create steps)

/-- **The unions of the schema keep their payloads.** After every run of steps from its default, a union stops an
accessor exactly where the discriminant does not select it; what is refused or rejected leaves the value as it was; an
accessor that lets through finds what the history of the run says that it left last, or else the default; the other
steps keep the slot. -/
theorem unions_keep_payloads :
    KeepsPayloads U.selection U.create U.armAt (fun _ => False) ({ tag := 0 } : U) ∧
    KeepsPayloads Strict.selection Strict.create Strict.armAt (fun _ => False) ({ tag := 0 } : Strict) ∧
    KeepsPayloads Maybe.selection Maybe.create Maybe.armAt (fun w => w ≠ 0 ∧ w ≠ 1) ({ tag := false } : Maybe) ∧
    KeepsPayloads Paint.selection Paint.create Paint.armAt (fun _ => False) ({ tag := {} } : Paint) ∧
    KeepsPayloads Extra.selection Extra.create Extra.armAt (fun _ => False) ({} : Record).extra :=
  ⟨kept_of_run U.selects ofWord_int32 rfl, kept_of_run Strict.selects ofWord_int32 rfl,
    kept_of_run Maybe.selects ofWord_bool rfl, kept_of_run Paint.selects ofWord_color rfl,
    kept_of_run Extra.selects ofWord_color rfl⟩

end Xdr.Sample
