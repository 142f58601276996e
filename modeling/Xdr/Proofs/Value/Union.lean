/-
What a union value remembers.

The slot is older than the discriminant: it holds the payload that an accessor left last, whatever the discriminant has
been since. `history` is what a run does to the slot, event by event, and `lastLeft` reads the payload of an arm off it.
- `step_cases`: a step keeps the slot, or leaves a payload of an arm that its discriminant opens.
- `payload?_run`: after a run the slot holds, of every arm, what the history says.
- `kept_of_run`: what follows for the next step, whichever it is: what it answers, and what it leaves alone.
-/
import Mathlib.Data.List.Induction
import Mathlib.Tactic.ByContra
import Mathlib.Tactic.SplitIfs
import Xdr.Value.Union

namespace Xdr

variable {Tag Arm : Type} {Payload : Arm → Type}

/-! ## Histories -/

/-- what a step does to the slot -/
inductive SlotEvent {Arm : Type} (Payload : Arm → Type) where
  /-- a payload of the arm is made, and put in the place of any other -/
  | created (a : Arm)
  /-- an accessor lets through, and leaves that payload -/
  | left (p : Sigma Payload)

/-- the payload that a step hands out, as it leaves it -/
def UnionAnswer.left? : UnionAnswer Tag Payload → Option (Sigma Payload)
  | .body p => p
  | .payload a p _ => some ⟨a, p⟩
  | _ => none

/-- the payload of an arm after an event, given the one before -/
def SlotEvent.after [DecidableEq Arm] (a : Arm) (p : Option (Payload a)) : SlotEvent Payload → Option (Payload a)
  | .created b => if b = a then p else none
  | .left ⟨b, q⟩ => if h : b = a then some (h ▸ q) else p

/-- the payload that the accessor of an arm left last, since a payload of another arm was created last -/
def lastLeft [DecidableEq Arm] (a : Arm) (h : List (SlotEvent Payload)) : Option (Payload a) :=
  h.foldl (SlotEvent.after a) none

/-- the event leaves no payload of the arm, and makes none of another -/
def SlotEvent.Spares (a : Arm) (e : SlotEvent Payload) : Prop :=
  (∀ q, e ≠ .left ⟨a, q⟩) ∧ ∀ b, b ≠ a → e ≠ .created b

section

variable [DecidableEq Arm] {a : Arm} {p : Option (Payload a)}

theorem SlotEvent.after_left (q : Payload a) : SlotEvent.after a p (.left ⟨a, q⟩) = some q := by
  simp [after]

theorem SlotEvent.after_left_of_ne {b : Arm} (h : b ≠ a) (q : Payload b) :
    SlotEvent.after a p (.left ⟨b, q⟩) = p := by
  simp [after, h]

theorem SlotEvent.after_created_of_ne {b : Arm} (h : b ≠ a) : SlotEvent.after a p (.created b) = none := by
  simp [after, h]

theorem SlotEvent.after_of_spares {e : SlotEvent Payload} (h : e.Spares a) : e.after a p = p := by
  cases e with
  | created b =>
    have hb : b = a := by
      by_contra hne
      exact h.2 b hne rfl
    simp [after, hb]
  | left r =>
    obtain ⟨b, q⟩ := r
    refine after_left_of_ne (fun hb => ?_) q
    subst hb
    exact h.1 q rfl

theorem foldl_after_of_spares {h : List (SlotEvent Payload)} (hspares : ∀ e ∈ h, e.Spares a) :
    h.foldl (SlotEvent.after a) p = p := by
  induction h with
  | nil => rfl
  | cons e es ih =>
    rw [List.foldl_cons, SlotEvent.after_of_spares (hspares e List.mem_cons_self)]
    exact ih fun e' he => hspares e' (List.mem_cons_of_mem e he)

/-- such a payload stands in the history, and nothing behind it is left by that arm or created for another -/
theorem lastLeft_eq_some_iff {q : Payload a} {h : List (SlotEvent Payload)} :
    lastLeft a h = some q ↔ ∃ h₁ h₂, h = h₁ ++ .left ⟨a, q⟩ :: h₂ ∧ ∀ e ∈ h₂, e.Spares a := by
  constructor
  · intro hlast
    induction h using List.reverseRecOn with
    | nil => cases hlast
    | append_singleton h e ih =>
      rw [lastLeft, List.foldl_append] at hlast
      change SlotEvent.after a (lastLeft a h) e = some q at hlast
      by_cases hspares : e.Spares a
      · rw [SlotEvent.after_of_spares hspares] at hlast
        obtain ⟨h₁, h₂, rfl, hrest⟩ := ih hlast
        refine ⟨h₁, h₂ ++ [e], by simp, fun e' he => ?_⟩
        rcases List.mem_append.1 he with he | he
        · exact hrest e' he
        · rwa [List.mem_singleton.1 he]
      · -- the event decides: it leaves a payload of the arm, as one of another arm was created would leave none
        cases e with
        | created b =>
          by_cases hb : b = a
          · exact absurd ⟨nofun, fun b' hb' heq => hb' (by cases heq; exact hb)⟩ hspares
          · rw [SlotEvent.after_created_of_ne hb] at hlast
            cases hlast
        | left r =>
          obtain ⟨b, q'⟩ := r
          by_cases hb : b = a
          · subst hb
            rw [SlotEvent.after_left] at hlast
            cases hlast
            exact ⟨h, [], rfl, by simp⟩
          · exact absurd ⟨fun q heq => hb (by cases heq; rfl), nofun⟩ hspares
  · rintro ⟨h₁, h₂, rfl, hspares⟩
    rw [lastLeft, List.foldl_append, List.foldl_cons, SlotEvent.after_left]
    exact foldl_after_of_spares hspares

end

namespace UnionValue

variable [DecidableEq Arm] {s : Selection Tag Arm} {create : (a : Arm) → Payload a} {a : Arm}
  {u : UnionValue Tag Payload}

/-! ## Accessors -/

theorem access_eq_ok (h : s.admits a u.tag = true) :
    u.access s create a = .ok (u.fill create a, (u.payload? a).getD (create a)) := by
  rw [access, if_pos h, payload?_fill]

theorem access_eq_error (h : s.admits a u.tag = false) : u.access s create a = .error (.unselected a) := by
  rw [access, h]
  rfl

theorem isOk_access : (u.access s create a).isOk = s.admits a u.tag := by
  cases h : s.admits a u.tag with
  | true =>
    rw [access_eq_ok h]
    rfl
  | false =>
    rw [access_eq_error h]
    rfl

/-- an accessor that lets through finds a payload of its arm -/
theorem access_ne_unfilled (s : Selection Tag Arm) (create : (a : Arm) → Payload a) (a b : Arm)
    (u : UnionValue Tag Payload) : u.access s create a ≠ .error (.unfilled b) := by
  cases h : s.admits a u.tag with
  | true =>
    rw [access_eq_ok h]
    exact nofun
  | false =>
    rw [access_eq_error h]
    exact nofun

/-- a filled slot holds a payload of the arm -/
theorem slot_fill (create : (a : Arm) → Payload a) (a : Arm) (u : UnionValue Tag Payload) :
    (u.fill create a).slot = some ⟨a, (u.payload? a).getD (create a)⟩ := by
  unfold fill
  cases h : u.payload? a with
  | none => rfl
  | some p =>
    unfold payload? at h
    split at h
    · next b q hslot =>
      split at h
      · next hb =>
        subst hb
        cases h
        exact hslot
      · cases h
    · cases h

theorem fill_eq (create : (a : Arm) → Payload a) (a : Arm) (u : UnionValue Tag Payload) :
    u.fill create a = ⟨u.tag, some ⟨a, (u.payload? a).getD (create a)⟩⟩ := by
  calc u.fill create a = ⟨(u.fill create a).tag, (u.fill create a).slot⟩ := rfl
    _ = ⟨u.tag, some ⟨a, (u.payload? a).getD (create a)⟩⟩ := by rw [tag_fill, slot_fill]

theorem payload?_of_slot {v : UnionValue Tag Payload} (h : u.slot = v.slot) (a : Arm) :
    u.payload? a = v.payload? a := by
  unfold payload?
  rw [h]

theorem payload?_of_slot_eq_some {p : Sigma Payload} (h : u.slot = some p) :
    u.payload? a = if h : p.1 = a then some (h ▸ p.2) else none := by
  unfold payload?
  rw [h]

/-- a slot holds the payload of one arm -/
theorem payload?_eq_none_of_ne {b : Arm} {p : Payload b} (h : u.payload? b = some p) (hne : b ≠ a) :
    u.payload? a = none := by
  cases hslot : u.slot with
  | none =>
    unfold payload?
    rw [hslot]
  | some r =>
    rw [payload?_of_slot_eq_some hslot] at h ⊢
    split_ifs at h with hb
    exact dif_neg fun ha => hne (hb.symm.trans ha)

/-! ## Steps -/

variable [Word32 Tag]

/-- the events of a step -/
def events (s : Selection Tag Arm) (create : (a : Arm) → Payload a) (u : UnionValue Tag Payload)
    (x : UnionStep Payload) : List (SlotEvent Payload) :=
  match (u.step s create x).2.left? with
  | some p => (if (u.payload? p.1).isNone then [.created p.1] else []) ++ [.left p]
  | none => []

/-- the events of a run -/
def history (s : Selection Tag Arm) (create : (a : Arm) → Payload a) (u : UnionValue Tag Payload) :
    List (UnionStep Payload) → List (SlotEvent Payload)
  | [] => []
  | x :: xs => u.events s create x ++ (u.step s create x).1.history s create xs

theorem step_access_of_admits (h : s.admits a u.tag = true) (change : Payload a → Except ValueError (Payload a)) :
    u.step s create (.access a change) =
      let p := (u.payload? a).getD (create a)
      (⟨u.tag, some ⟨a, (settle p (change p)).1⟩⟩, .payload a (settle p (change p)).1 (settle p (change p)).2) := by
  rw [step, access_eq_ok h]
  simp

theorem step_access_of_not_admits (h : s.admits a u.tag = false) (change : Payload a → Except ValueError (Payload a)) :
    u.step s create (.access a change) = (u, .refused (.unselected a)) := by
  rw [step, access_eq_error h]

theorem step_body_none (h : s.body u.tag = none) : u.step s create .body = (u, .body none) := by
  rw [step, body, h]

theorem step_body_of_admits (h : s.body u.tag = some a) (hadmits : s.admits a u.tag = true) :
    u.step s create .body = (u.fill create a, .body (some ⟨a, (u.payload? a).getD (create a)⟩)) := by
  rw [step, body, h]
  dsimp only
  rw [access_eq_ok hadmits]
  rfl

theorem step_body_of_not_admits (h : s.body u.tag = some a) (hadmits : s.admits a u.tag = false) :
    u.step s create .body = (u, .refused (.unselected a)) := by
  rw [step, body, h]
  dsimp only
  rw [access_eq_error hadmits]
  rfl

theorem step_setTag (w : UInt32) : u.step s create (.setTag w) =
    (⟨(setWord u.tag w).1, u.slot⟩, .done (setWord u.tag w).2) := rfl

/-- a step that is refused changes nothing -/
theorem step_eq_of_refused {x : UnionStep Payload} {r : Refusal Arm} (h : (u.step s create x).2 = .refused r) :
    (u.step s create x).1 = u := by
  cases x with
  | setTag w => cases h
  | tag => rfl
  | valid => rfl
  | body =>
    cases hb : s.body u.tag with
    | none => rw [step_body_none hb]
    | some a =>
      cases ha : s.admits a u.tag with
      | true =>
        rw [step_body_of_admits hb ha] at h
        cases h
      | false => rw [step_body_of_not_admits hb ha]
  | access a change =>
    cases ha : s.admits a u.tag with
    | true =>
      rw [step_access_of_admits ha] at h
      cases h
    | false => rw [step_access_of_not_admits ha]

/-- a word that is no discriminant changes nothing -/
theorem step_eq_of_rejected {w : UInt32} {e : ValueError} (h : (u.step s create (.setTag w)).2 = .done (.error e)) :
    (u.step s create (.setTag w)).1 = u := by
  rw [step_setTag] at h ⊢
  unfold setWord at h ⊢
  cases hw : (Word32.ofWord w : Except ValueError Tag) with
  | ok t =>
    rw [hw] at h
    cases h
  | error e => rfl

theorem step_rejected_iff {w : UInt32} : (∃ e, (u.step s create (.setTag w)).2 = .done (.error e)) ↔
    ∃ e, (Word32.ofWord w : Except ValueError Tag) = .error e := by
  rw [step_setTag]
  unfold setWord
  cases (Word32.ofWord w : Except ValueError Tag) <;> simp [settle]

/-- a step keeps the slot, or leaves a payload of an arm that the discriminant opens -/
theorem step_cases (s : Selection Tag Arm) (create : (a : Arm) → Payload a) (u : UnionValue Tag Payload)
    (x : UnionStep Payload) :
    ((u.step s create x).2.left? = none ∧ (u.step s create x).1.slot = u.slot) ∨
      ∃ p, (u.step s create x).2.left? = some p ∧ (u.step s create x).1.slot = some p ∧ s.admits p.1 u.tag = true := by
  cases x with
  | setTag w => exact .inl ⟨rfl, rfl⟩
  | tag => exact .inl ⟨rfl, rfl⟩
  | valid => exact .inl ⟨rfl, rfl⟩
  | body =>
    cases hb : s.body u.tag with
    | none =>
      rw [step_body_none hb]
      exact .inl ⟨rfl, rfl⟩
    | some a =>
      cases ha : s.admits a u.tag with
      | true =>
        rw [step_body_of_admits hb ha]
        exact .inr ⟨_, rfl, slot_fill create a u, ha⟩
      | false =>
        rw [step_body_of_not_admits hb ha]
        exact .inl ⟨rfl, rfl⟩
  | access a change =>
    cases ha : s.admits a u.tag with
    | true =>
      rw [step_access_of_admits ha]
      exact .inr ⟨_, rfl, rfl, ha⟩
    | false =>
      rw [step_access_of_not_admits ha]
      exact .inl ⟨rfl, rfl⟩

/-- one step: the slot holds what its events make of it -/
theorem payload?_step (x : UnionStep Payload) (a : Arm) :
    (u.step s create x).1.payload? a = (u.events s create x).foldl (SlotEvent.after a) (u.payload? a) := by
  unfold events
  rcases step_cases s create u x with ⟨hleft, hslot⟩ | ⟨⟨b, p⟩, hleft, hslot, -⟩
  · rw [hleft, payload?_of_slot hslot]
    rfl
  · rw [hleft, payload?_of_slot_eq_some hslot, List.foldl_append, List.foldl_cons, List.foldl_nil]
    by_cases hb : b = a
    · subst hb
      rw [SlotEvent.after_left, dif_pos rfl]
    · rw [SlotEvent.after_left_of_ne hb, dif_neg hb]
      cases hp : u.payload? b with
      | none => exact (SlotEvent.after_created_of_ne hb).symm
      | some q => exact (payload?_eq_none_of_ne hp hb).symm

theorem run_cons (x : UnionStep Payload) (xs : List (UnionStep Payload)) : u.run s create (x :: xs) =
    (((u.step s create x).1.run s create xs).1,
      (u.step s create x).2 :: ((u.step s create x).1.run s create xs).2) := rfl

/-- **The slot holds what the history says**, of every arm. -/
theorem payload?_run (steps : List (UnionStep Payload)) (a : Arm) :
    (u.run s create steps).1.payload? a = (u.history s create steps).foldl (SlotEvent.after a) (u.payload? a) := by
  induction steps generalizing u with
  | nil => rfl
  | cons x xs ih =>
    rw [run_cons, history, List.foldl_append, ← payload?_step]
    exact ih

/-- a payload outlasts every run that hands out nothing else -/
theorem payload?_run_of_left {p : Payload a} {detour : List (UnionStep Payload)} (hp : u.payload? a = some p)
    (hleft : ∀ x ∈ (u.run s create detour).2, ∀ q, x.left? = some q → q = ⟨a, p⟩) :
    (u.run s create detour).1.payload? a = some p := by
  induction detour generalizing u with
  | nil => exact hp
  | cons x xs ih =>
    rw [run_cons] at hleft ⊢
    refine ih ?_ fun y hy => hleft y (List.mem_cons_of_mem _ hy)
    rcases step_cases s create u x with ⟨-, hslot⟩ | ⟨q, hq, hslot, -⟩
    · rw [payload?_of_slot hslot, hp]
    · obtain rfl := hleft _ List.mem_cons_self q hq
      rw [payload?_of_slot_eq_some hslot, dif_pos rfl]

/-! ## What a union value keeps -/

/-- accessors and dispatch choose the arm that `armAt` says -/
structure Selects (s : Selection Tag Arm) (armAt : Tag → Option Arm) : Prop where
  admits : ∀ a v, s.admits a v = true ↔ armAt v = some a
  body : ∀ v, s.body v = armAt v

/-- the next step of a value that has that history, whichever step it is -/
structure Kept (s : Selection Tag Arm) (create : (a : Arm) → Payload a) (armAt : Tag → Option Arm)
    (rejects : UInt32 → Prop) (u : UnionValue Tag Payload) (h : List (SlotEvent Payload)) : Prop where
  /-- an accessor stops exactly where its arm is not selected -/
  stops : ∀ a change, (∃ r, (u.step s create (.access a change)).2 = .refused r) ↔ armAt u.tag ≠ some a
  /-- some words are no discriminant -/
  rejected : ∀ w, (∃ e, (u.step s create (.setTag w)).2 = .done (.error e)) ↔ rejects w
  /-- a refused access and a rejected word change nothing -/
  refused_eq : ∀ x r, (u.step s create x).2 = .refused r → (u.step s create x).1 = u
  rejected_eq : ∀ w e, (u.step s create (.setTag w)).2 = .done (.error e) → (u.step s create (.setTag w)).1 = u
  /-- an accessor that lets through finds what its arm left last, and leaves it as changed -/
  yields : ∀ a, armAt u.tag = some a → ∀ change, ∃ v, u.access s create a = .ok (v, (lastLeft a h).getD (create a)) ∧
    u.step s create (.access a change) =
      let (p, r) := settle ((lastLeft a h).getD (create a)) (change ((lastLeft a h).getD (create a)))
      (⟨u.tag, some ⟨a, p⟩⟩, .payload a p r)
  /-- the body is what the accessor of the selected arm finds -/
  body : ∀ a, armAt u.tag = some a → u.step s create .body =
    (⟨u.tag, some ⟨a, (lastLeft a h).getD (create a)⟩⟩, .body (some ⟨a, (lastLeft a h).getD (create a)⟩))
  /-- without a selected payload there is no body -/
  no_body : armAt u.tag = none → u.step s create .body = (u, .body none)
  /-- setting the discriminant, reading it and asking for validity keep the slot -/
  setTag_slot : ∀ w, (u.step s create (.setTag w)).1.slot = u.slot
  tag_eq : (u.step s create .tag).1 = u
  valid_eq : (u.step s create .valid).1 = u
  /-- a payload outlasts every detour that hands out nothing else -/
  survives : ∀ a p, u.payload? a = some p → ∀ detour,
    (∀ x ∈ (u.run s create detour).2, ∀ q, x.left? = some q → q = ⟨a, p⟩) →
      armAt (u.run s create detour).1.tag = some a → ∃ v, (u.run s create detour).1.access s create a = .ok (v, p)

variable {armAt : Tag → Option Arm} {rejects : UInt32 → Prop}

theorem kept_of_payload (hs : Selects s armAt)
    (hrejects : ∀ w, (∃ e, (Word32.ofWord w : Except ValueError Tag) = .error e) ↔ rejects w)
    {h : List (SlotEvent Payload)} (hlast : ∀ a, u.payload? a = lastLeft a h) :
    Kept s create armAt rejects u h where
  stops a change := by
    cases ha : s.admits a u.tag with
    | true =>
      rw [step_access_of_admits ha]
      exact iff_of_false nofun (not_not.2 ((hs.admits a u.tag).1 ha))
    | false =>
      rw [step_access_of_not_admits ha]
      refine iff_of_true ⟨_, rfl⟩ fun hsel => ?_
      rw [(hs.admits a u.tag).2 hsel] at ha
      cases ha
  rejected w := step_rejected_iff.trans (hrejects w)
  refused_eq x r := step_eq_of_refused
  rejected_eq w e := step_eq_of_rejected
  yields a hsel change := by
    have ha := (hs.admits a u.tag).2 hsel
    rw [← hlast]
    exact ⟨_, access_eq_ok ha, step_access_of_admits ha change⟩
  body a hsel := by
    rw [step_body_of_admits ((hs.body u.tag).trans hsel) ((hs.admits a u.tag).2 hsel), fill_eq, hlast]
  no_body hnone := step_body_none ((hs.body u.tag).trans hnone)
  setTag_slot w := rfl
  tag_eq := rfl
  valid_eq := rfl
  survives a p hp detour hleft hsel := by
    have ha := (hs.admits a _).2 hsel
    have hpayload := payload?_run_of_left hp hleft
    exact ⟨_, (access_eq_ok ha).trans (by rw [hpayload]; rfl)⟩

/-- **After every run from an empty slot, the value keeps what its history says.** -/
theorem kept_of_run (hs : Selects s armAt)
    (hrejects : ∀ w, (∃ e, (Word32.ofWord w : Except ValueError Tag) = .error e) ↔ rejects w) (hslot : u.slot = none)
    (steps : List (UnionStep Payload)) :
    Kept s create armAt rejects (u.run s create steps).1 (u.history s create steps) := by
  refine kept_of_payload hs hrejects fun a => ?_
  have hempty : u.payload? a = none := by
    unfold payload?
    rw [hslot]
  rw [payload?_run, hempty]
  rfl

end UnionValue

end Xdr
