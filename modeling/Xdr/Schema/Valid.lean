/-
Rules that hold within one definition, bodies declared inline included: members of a struct have different names; so
have the members of a union and its discriminant; labels of a union are different texts; a union has one default arm
at most; tags of an enum have different names.

`validate` reports the first rule that is broken, going through the members in order and into a member's inline body
right after its own name.
-/
import Xdr.Error
import Xdr.Schema.Definition

namespace Xdr

/-- the first name that stands in `seen` or earlier in the list -/
def firstRepeat (seen : List String) : List String → Option String
  | [] => none
  | x :: xs => if x ∈ seen then some x else firstRepeat (x :: seen) xs

theorem firstRepeat_eq_none_iff {seen xs : List String} :
    firstRepeat seen xs = none ↔ xs.Nodup ∧ ∀ x ∈ xs, x ∉ seen := by
  induction xs generalizing seen with
  | nil => simp [firstRepeat]
  | cons x xs ih =>
    by_cases h : x ∈ seen
    · simp [firstRepeat, h]
    · simp only [firstRepeat, h, if_false, ih, List.nodup_cons, List.mem_cons]
      constructor
      · rintro ⟨hn, hs⟩
        refine ⟨⟨fun hx => hs x hx (Or.inl rfl), hn⟩, ?_⟩
        rintro y (rfl | hy)
        · exact h
        · exact fun hy' => hs y hy (Or.inr hy')
      · rintro ⟨⟨hx, hn⟩, hs⟩
        refine ⟨hn, fun y hy => ?_⟩
        rintro (rfl | hy')
        · exact hx hy
        · exact hs y (Or.inr hy) hy'

mutual

def Definition.validate : Definition → Except Clash Unit
  | .const .. => .ok ()
  | .program _ => .ok ()
  | .typedef d => d.validateBody
  | .struct id fields => validateFields id [] fields
  | .enum id tags =>
    match firstRepeat [] (tags.map EnumTag.id) with
    | some tag => .error (.tag id tag)
    | none => .ok ()
  | .union id tagId _ arms _ =>
    match firstRepeat [] (labels arms) with
    | some label => .error (.label id label)
    | none => if (arms.filter Arm.isDefault).length > 1 then .error (.defaults id) else validateArms id [tagId] arms

def Decl.validateBody : Decl → Except Clash Unit
  | ⟨_, _, _, _, none⟩ => .ok ()
  | ⟨_, _, _, _, some b⟩ => b.validate

/-- the fields of `parent` whose earlier members are named in `seen` -/
def validateFields (parent : String) (seen : List String) : List Decl → Except Clash Unit
  | [] => .ok ()
  | d :: ds => do
    if d.id ∈ seen then throw (.member parent d.id)
    d.validateBody
    validateFields parent (d.id :: seen) ds

/-- the arms of `parent`; a void arm has no member -/
def validateArms (parent : String) (seen : List String) : List Arm → Except Clash Unit
  | [] => .ok ()
  | ⟨_, _, d⟩ :: as =>
    if d.isVoid then validateArms parent seen as
    else do
      if d.id ∈ seen then throw (.member parent d.id)
      d.validateBody
      validateArms parent (d.id :: seen) as

end

end Xdr
