/-
Values of discriminated unions.

A union value is a discriminant and a slot. The slot holds the payload that was created last, with the arm it belongs
to; a change of the discriminant leaves it alone. The accessor of an arm stops unless the discriminant selects the arm;
otherwise it keeps a payload of its own arm, and replaces any other by the arm's default.

`step` is one use of a union value from outside: setting or reading the discriminant, asking if it is valid, taking the
body, or going through an accessor, with a change to the payload or none.
-/
import Xdr.Value.Scalar

namespace Xdr

/-- which arm a discriminant stands for, as each part of a union sees it -/
structure Selection (Tag Arm : Type) where
  /-- lets the accessor of an arm through -/
  admits : Arm → Tag → Bool
  /-- the arm whose payload is the body; none for a void arm, and where no arm is selected -/
  body : Tag → Option Arm
  /-- selects some arm, void ones included -/
  valid : Tag → Bool

/-- why the accessor of an arm stops -/
inductive Refusal (Arm : Type) where
  /-- the discriminant selects another arm -/
  | unselected (arm : Arm)
  /-- the slot holds no payload of the arm after it was filled -/
  | unfilled (arm : Arm)
deriving DecidableEq, Repr

def Refusal.arm {Arm : Type} : Refusal Arm → Arm
  | unselected a => a
  | unfilled a => a

/-- the text of a stopped access to the arm of that name -/
def refusalText (name : String) : String := s!"{name} accessed when not selected"

structure UnionValue (Tag : Type) {Arm : Type} (Payload : Arm → Type) where
  tag : Tag
  slot : Option (Sigma Payload) := none

namespace UnionValue

variable {Tag Arm : Type} [DecidableEq Arm] {Payload : Arm → Type}

/-- the payload in the slot, if it is of the arm -/
def payload? (u : UnionValue Tag Payload) (a : Arm) : Option (Payload a) :=
  match u.slot with
  | some ⟨b, p⟩ => if h : b = a then some (h ▸ p) else none
  | none => none

/-- makes the slot hold a payload of the arm -/
def fill (create : (a : Arm) → Payload a) (a : Arm) (u : UnionValue Tag Payload) : UnionValue Tag Payload :=
  match u.payload? a with
  | some _ => u
  | none => { u with slot := some ⟨a, create a⟩ }

/-- the accessor of an arm: the value with its slot filled, and the payload -/
def access (s : Selection Tag Arm) (create : (a : Arm) → Payload a) (a : Arm) (u : UnionValue Tag Payload) :
    Except (Refusal Arm) (UnionValue Tag Payload × Payload a) :=
  if s.admits a u.tag then
    match (u.fill create a).payload? a with
    | some p => .ok (u.fill create a, p)
    | none => .error (.unfilled a)
  else .error (.unselected a)

/-- the payload of the selected arm, through its accessor -/
def body (s : Selection Tag Arm) (create : (a : Arm) → Payload a) (u : UnionValue Tag Payload) :
    Except (Refusal Arm) (UnionValue Tag Payload × Option (Sigma Payload)) :=
  match s.body u.tag with
  | none => .ok (u, none)
  | some a => (u.access s create a).map fun r => (r.1, some ⟨a, r.2⟩)

@[simp] theorem payload?_some (t : Tag) (a : Arm) (p : Payload a) :
    (UnionValue.mk t (some ⟨a, p⟩)).payload? a = some p := by
  simp [payload?]

theorem payload?_fill (create : (a : Arm) → Payload a) (a : Arm) (u : UnionValue Tag Payload) :
    (u.fill create a).payload? a = some ((u.payload? a).getD (create a)) := by
  unfold fill
  cases h : u.payload? a <;> simp [h]

@[simp] theorem tag_fill (create : (a : Arm) → Payload a) (a : Arm) (u : UnionValue Tag Payload) :
    (u.fill create a).tag = u.tag := by
  unfold fill
  cases u.payload? a <;> rfl

end UnionValue

/-! ## Steps -/

/-- one use of a union value -/
inductive UnionStep {Arm : Type} (Payload : Arm → Type) where
  | setTag (word : UInt32)
  | tag
  | valid
  | body
  /-- through the accessor of an arm, with a change that the payload may refuse -/
  | access (a : Arm) (change : Payload a → Except ValueError (Payload a))

/-- what a step answers -/
inductive UnionAnswer (Tag : Type) {Arm : Type} (Payload : Arm → Type) where
  | done (result : Except ValueError Unit)
  | tag (t : Tag)
  | valid (b : Bool)
  | body (p : Option (Sigma Payload))
  /-- the payload after the change, and how the change went -/
  | payload (a : Arm) (p : Payload a) (result : Except ValueError Unit)
  | refused (r : Refusal Arm)

namespace UnionValue

variable {Tag Arm : Type} [DecidableEq Arm] {Payload : Arm → Type}

def step [Word32 Tag] (s : Selection Tag Arm) (create : (a : Arm) → Payload a) (u : UnionValue Tag Payload) :
    UnionStep Payload → UnionValue Tag Payload × UnionAnswer Tag Payload
  | .setTag w =>
    let (t, r) := setWord u.tag w
    ({ u with tag := t }, .done r)
  | .tag => (u, .tag u.tag)
  | .valid => (u, .valid (s.valid u.tag))
  | .body =>
    match u.body s create with
    | .ok (u', p) => (u', .body p)
    | .error r => (u, .refused r)
  | .access a change =>
    match u.access s create a with
    | .ok (u', p) =>
      let (p', r) := settle p (change p)
      ({ u' with slot := some ⟨a, p'⟩ }, .payload a p' r)
    | .error r => (u, .refused r)

/-- a run of steps, with their answers -/
def run [Word32 Tag] (s : Selection Tag Arm) (create : (a : Arm) → Payload a) (u : UnionValue Tag Payload) :
    List (UnionStep Payload) → UnionValue Tag Payload × List (UnionAnswer Tag Payload)
  | [] => (u, [])
  | x :: xs =>
    let (u', a) := u.step s create x
    let (u'', as) := u'.run s create xs
    (u'', a :: as)

/-- equal discriminants and equal slots -/
instance [BEq Tag] [(a : Arm) → BEq (Payload a)] : BEq (UnionValue Tag Payload) := ⟨fun u v =>
  u.tag == v.tag && match u.slot, v.slot with
    | none, none => true
    | some ⟨a, p⟩, some ⟨b, q⟩ => if h : a = b then p == h ▸ q else false
    | _, _ => false⟩

/-- a union as text, given the names of its parts -/
def shownAs [Shown Tag] [(a : Arm) → Shown (Payload a)] (name tagName : String) (armName : Arm → String)
    (u : UnionValue Tag Payload) : String :=
  let slot := match u.slot with
    | none => "None"
    | some ⟨a, p⟩ => shownTagged "Some" (shownTagged (armName a) (shown p))
  shownFields name [(tagName, shown u.tag), ("_u", slot)]

end UnionValue

end Xdr
