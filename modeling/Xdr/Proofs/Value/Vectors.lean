/-
What a bounded vector holds.

A call that sets the length is checked against the bound alone, so it goes through or is refused whatever was pushed
before it. An item stands in its place until a call that goes through cuts the vector off before it; what stands there
later was put there later.
- `setLength_of_le`, `setLength_of_lt`: what a call does when it goes through, and when it is refused.
- `getElem?_step_iff`: an item after one step stood there before, or was put there by the step.
- `getElem?_run_iff`: after any steps, an item is what was put in its place and not cut off since.
- `holds_what_is_left`: the length and the items after any steps, and the next call.
-/
import Mathlib.Data.List.Induction
import Xdr.Value.Container

namespace Xdr.BoundedVec

variable {bound : UInt32} {α : Type}

/-! ## One call -/

theorem length_resize (blank : α) (n : Nat) (xs : List α) : (resize blank n xs).length = n := by
  rw [resize, List.length_append, List.length_take, List.length_replicate]
  omega

/-- what is kept stands where it stood, and blanks follow it -/
theorem getElem?_resize (blank : α) (n : Nat) (xs : List α) (i : Nat) :
    (resize blank n xs)[i]? = if i < n then some (xs[i]?.getD blank) else none := by
  split_ifs with hi
  · rw [resize, List.getElem?_append, List.length_take]
    by_cases hold : i < xs.length
    · rw [if_pos (by omega), List.getElem?_take_of_lt hi, List.getElem?_eq_getElem hold, Option.getD_some]
    · rw [if_neg (by omega), List.getElem?_replicate, if_pos (by omega), List.getElem?_eq_none (by omega),
        Option.getD_none]
  · exact List.getElem?_eq_none (by rw [length_resize]; omega)

variable [Inhabited α] {v : BoundedVec bound α} {n : UInt32} {i : Nat} {x : α}

theorem setLength_of_le (h : n ≤ bound) : v.setLength n = (⟨resize default n.toNat v.items⟩, .ok ()) := by
  have hcheck : checkBound n.toNat bound = .ok () := if_neg (Nat.not_lt.2 (UInt32.le_iff_toNat_le.1 h))
  rw [setLength, hcheck]
  rfl

theorem setLength_of_lt (h : bound < n) : v.setLength n = (v, .error (.tooLong n.toNat bound.toNat)) := by
  have hcheck : checkBound n.toNat bound = .error (.tooLong n.toNat bound.toNat) :=
    if_pos (UInt32.lt_iff_toNat_lt.1 h)
  rw [setLength, hcheck]
  rfl

/-! ## Steps -/

inductive Step (α : Type) where
  | setLength (n : UInt32)
  | push (x : α)
deriving DecidableEq, Repr

namespace Step

/-- the length after a step: a call that goes through settles it, and a push adds one -/
def lengthAfter (bound : UInt32) (length : Nat) : Step α → Nat
  | .setLength n => if n ≤ bound then n.toNat else length
  | .push _ => length + 1

/-- the step puts an item in a place that a vector of that length does not reach: it fills the vector up, or pushes -/
def Puts (bound : UInt32) (length i : Nat) (x : α) : Step α → Prop
  | .setLength n => n ≤ bound ∧ length ≤ i ∧ i < n.toNat ∧ x = default
  | .push y => i = length ∧ x = y

/-- the step does not cut the vector off before that place -/
def Spares (bound : UInt32) (i : Nat) : Step α → Prop
  | .setLength n => n ≤ bound → i < n.toNat
  | .push _ => True

end Step

/-- a step, whether it is refused or not -/
def step (v : BoundedVec bound α) : Step α → BoundedVec bound α
  | .setLength n => (v.setLength n).1
  | .push x => v.push x

theorem length_step (v : BoundedVec bound α) (s : Step α) :
    (v.step s).items.length = s.lengthAfter bound v.items.length := by
  cases s with
  | push x => exact List.length_append
  | setLength n =>
    rw [step, Step.lengthAfter]
    split_ifs with hn
    · rw [setLength_of_le hn, length_resize]
    · rw [setLength_of_lt (UInt32.not_le.1 hn)]

/-- an item after a step stood there before and was spared, or was put there by the step -/
theorem getElem?_step_iff (v : BoundedVec bound α) (s : Step α) : (v.step s).items[i]? = some x ↔
    (v.items[i]? = some x ∧ s.Spares bound i) ∨ s.Puts bound v.items.length i x := by
  cases s with
  | push y =>
    change (v.items ++ [y])[i]? = some x ↔ (v.items[i]? = some x ∧ True) ∨ i = v.items.length ∧ x = y
    grind
  | setLength n =>
    change (v.setLength n).1.items[i]? = some x ↔ (v.items[i]? = some x ∧ (n ≤ bound → i < n.toNat)) ∨
      n ≤ bound ∧ v.items.length ≤ i ∧ i < n.toNat ∧ x = default
    by_cases hn : n ≤ bound
    · rw [setLength_of_le hn, getElem?_resize]
      grind
    · rw [setLength_of_lt (UInt32.not_le.1 hn)]
      simp [hn]

/-! ## Any steps -/

def run (v : BoundedVec bound α) (steps : List (Step α)) : BoundedVec bound α := steps.foldl step v

theorem run_concat (v : BoundedVec bound α) (steps : List (Step α)) (s : Step α) :
    v.run (steps ++ [s]) = (v.run steps).step s := by
  rw [run, List.foldl_append]
  rfl

/-- the length that the steps leave an empty vector with -/
def lengthOf (bound : UInt32) (steps : List (Step α)) : Nat := steps.foldl (Step.lengthAfter bound) 0

theorem length_run (bound : UInt32) (steps : List (Step α)) :
    (run ({} : BoundedVec bound α) steps).items.length = lengthOf bound steps := by
  induction steps using List.reverseRecOn with
  | nil => rfl
  | append_singleton steps s ih =>
    rw [run_concat, length_step, ih, lengthOf, lengthOf, List.foldl_append]
    rfl

/-- an item that was put in a place, and not cut off since -/
def Left (bound : UInt32) (steps : List (Step α)) (i : Nat) (x : α) : Prop :=
  ∃ before s after, steps = before ++ s :: after ∧ s.Puts bound (lengthOf bound before) i x ∧
    ∀ s' ∈ after, s'.Spares bound i

/-- an item is left after one more step when it was left and is spared, or was put there last -/
theorem left_concat_iff {steps : List (Step α)} {s : Step α} : Left bound (steps ++ [s]) i x ↔
    (Left bound steps i x ∧ s.Spares bound i) ∨ s.Puts bound (lengthOf bound steps) i x := by
  constructor
  · rintro ⟨before, s', after, hsteps, hputs, hspares⟩
    rcases List.eq_nil_or_concat after with rfl | ⟨after, s'', rfl⟩
    · obtain ⟨rfl, hs⟩ := List.append_inj' hsteps rfl
      obtain rfl := List.singleton_inj.1 hs
      exact .inr hputs
    · rw [List.concat_eq_append, ← List.cons_append, ← List.append_assoc] at hsteps
      obtain ⟨rfl, hs⟩ := List.append_inj' hsteps rfl
      obtain rfl := List.singleton_inj.1 hs
      rw [List.concat_eq_append, List.forall_mem_append, List.forall_mem_singleton] at hspares
      exact .inl ⟨⟨before, s', after, rfl, hputs, hspares.1⟩, hspares.2⟩
  · rintro (⟨⟨before, s', after, rfl, hputs, hspares⟩, hlast⟩ | hputs)
    · refine ⟨before, s', after ++ [s], by simp, hputs, ?_⟩
      rw [List.forall_mem_append, List.forall_mem_singleton]
      exact ⟨hspares, hlast⟩
    · exact ⟨steps, s, [], rfl, hputs, List.forall_mem_nil _⟩

/-- **After any steps, an item is what was put in its place and not cut off since.** -/
theorem getElem?_run_iff (bound : UInt32) (steps : List (Step α)) :
    (run ({} : BoundedVec bound α) steps).items[i]? = some x ↔ Left bound steps i x := by
  induction steps using List.reverseRecOn generalizing x with
  | nil =>
    refine iff_of_false nofun ?_
    rintro ⟨before, s, after, hsteps, -⟩
    simp at hsteps
  | append_singleton steps s ih =>
    rw [run_concat, getElem?_step_iff, ih, length_run, left_concat_iff]

/-- what a vector that was empty holds after some steps, and what becomes of it next -/
structure HoldsLeft (steps : List (Step α)) (v : BoundedVec bound α) : Prop where
  length : v.items.length = lengthOf bound steps
  items : ∀ i x, v.items[i]? = some x ↔ Left bound steps i x
  succeeds_iff : ∀ n, (v.setLength n).2 = .ok () ↔ n ≤ bound
  refused : ∀ n, bound < n → v.setLength n = (v, .error (.tooLong n.toNat bound.toNat))
  /-- a call that goes through leaves exactly so many items: those that were there, and default items behind them -/
  resized : ∀ n, n ≤ bound → (v.setLength n).1.items.length = n.toNat ∧ (v.setLength n).1.length = n ∧
    ∀ i, (v.setLength n).1.items[i]? = if i < n.toNat then some (v.items[i]?.getD default) else none
  /-- what was cut off does not come back -/
  forgotten : ∀ m n, m ≤ bound → n ≤ bound → ∀ i, m.toNat ≤ i → i < n.toNat →
    ((v.setLength m).1.setLength n).1.items[i]? = some default

/-- **After any steps a vector holds what is left of them.** Its items are those that were put in their places and not
cut off since, also beyond the bound. The next call goes through exactly when its length is within the bound, and then
leaves exactly so many items; otherwise it changes nothing. -/
theorem holds_what_is_left (bound : UInt32) (steps : List (Step α)) :
    HoldsLeft steps (run ({} : BoundedVec bound α) steps) := by
  have hitems := fun i x => getElem?_run_iff (i := i) (x := x) bound steps
  have hlength := length_run bound steps
  generalize run ({} : BoundedVec bound α) steps = v at hitems hlength
  refine ⟨hlength, hitems, fun n => ?_, fun n => setLength_of_lt, fun n hn => ?_, fun m n hm hn i hi hi' => ?_⟩
  · by_cases hn : n ≤ bound
    · exact iff_of_true (by rw [setLength_of_le hn]) hn
    · exact iff_of_false (by rw [setLength_of_lt (UInt32.not_le.1 hn)]; exact nofun) hn
  · have hresized : (resize default n.toNat v.items).length = n.toNat := length_resize _ _ _
    rw [setLength_of_le hn]
    refine ⟨hresized, ?_, getElem?_resize _ _ _⟩
    rw [BoundedVec.length, hresized]
    exact UInt32.ofNat_toNat
  · rw [setLength_of_le hm, setLength_of_le hn, getElem?_resize, if_pos hi', getElem?_resize,
      if_neg (Nat.not_lt.2 hi), Option.getD_none]

/-- a vector that is pushed beyond its bound keeps the items there, is still refused a length beyond the bound, and does
not get back what it loses -/
example : (run ({} : BoundedVec 2) [.push 5, .push 6, .push 7]).items = [5, 6, 7] ∧
    (run ({} : BoundedVec 2) [.push 5, .push 6, .push 7, .setLength 3]).items = [5, 6, 7] ∧
    (run ({} : BoundedVec 2) [.push 5, .push 6, .push 7, .setLength 1, .setLength 2]).items = [5, 0] := by
  decide

end Xdr.BoundedVec
