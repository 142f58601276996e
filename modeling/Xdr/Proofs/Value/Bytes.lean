/-
What a container of bytes remembers.

A call either replaces the content or leaves the container as it was. So after any calls the content is that of the
last call that was accepted, whatever was refused since.
- `set_of_accepted`, `set_of_too_long`, `set_of_ill_formed`: what a call does, the bound first.
- `content_setAll`: after any calls the content is what was accepted last.
- `holds_last_accepted`: what follows for the content, its text, and the next call.
-/
import Mathlib.Data.List.Induction
import Xdr.Proofs.Text.Utf8
import Xdr.Sample.Union

namespace Xdr

open Text.Utf8

variable {kind : ByteKind} {bound : UInt32} {bytes : List UInt8} {calls : List (List UInt8)} {e : ValueError}

/-! ## One call -/

/-- the bytes are short enough and, for a text, well formed -/
def Accepted (kind : ByteKind) (bound : UInt32) (bytes : List UInt8) : Prop :=
  bytes.length ≤ bound.toNat ∧ (kind = .text → WellFormed bytes)

instance (kind : ByteKind) (bound : UInt32) (bytes : List UInt8) : Decidable (Accepted kind bound bytes) :=
  inferInstanceAs (Decidable (_ ∧ _))

/-- why a call is refused: it is too long, whatever the bytes; or it is short enough and no text, and then the fault
tells where the longest well-formed first part ends -/
inductive RefusedFor (kind : ByteKind) (bound : UInt32) (bytes : List UInt8) : ValueError → Prop
  | tooLong (h : bound.toNat < bytes.length) : RefusedFor kind bound bytes (.tooLong bytes.length bound.toNat)
  | notText {f : Fault} (hlen : bytes.length ≤ bound.toNat) (hkind : kind = .text) (hill : ¬WellFormed bytes)
    (hfault : FaultAt bytes f) : RefusedFor kind bound bytes (.notText f)

theorem not_accepted_of_refusedFor (h : RefusedFor kind bound bytes e) : ¬Accepted kind bound bytes := fun ha => by
  cases h with
  | tooLong h => exact absurd h (Nat.not_lt.2 ha.1)
  | notText _ hkind hill => exact hill (ha.2 hkind)

theorem ByteKind.check_of_wellFormed (h : kind = .text → WellFormed bytes) : kind.check bytes = .ok () := by
  cases kind with
  | raw => rfl
  | text =>
    obtain ⟨cs, hcs⟩ := wellFormed_iff.1 (h rfl)
    rw [check, hcs]

theorem ByteKind.check_text_of_ill_formed (h : ¬WellFormed bytes) :
    ∃ f, FaultAt bytes f ∧ text.check bytes = .error (.notText f) := by
  cases hdecode : decode bytes with
  | ok cs => exact absurd (wellFormed_iff.2 ⟨cs, hdecode⟩) h
  | error f => exact ⟨f, faultAt_of_decode hdecode, by rw [check, hdecode]⟩

namespace BoundedBytes

variable (b : BoundedBytes kind bound)

theorem set_of_accepted (h : Accepted kind bound bytes) : b.set bytes = (⟨bytes⟩, .ok ()) := by
  rw [set, ofBytes, checkBound, if_neg (Nat.not_lt.2 h.1), ByteKind.check_of_wellFormed h.2]
  rfl

theorem set_of_too_long (h : bound.toNat < bytes.length) :
    b.set bytes = (b, .error (.tooLong bytes.length bound.toNat)) := by
  rw [set, ofBytes, checkBound, if_pos h]
  rfl

theorem set_of_ill_formed (b : BoundedBytes .text bound) (hlen : bytes.length ≤ bound.toNat)
    (hill : ¬WellFormed bytes) : ∃ f, FaultAt bytes f ∧ b.set bytes = (b, .error (.notText f)) := by
  obtain ⟨f, hfault, hcheck⟩ := ByteKind.check_text_of_ill_formed hill
  refine ⟨f, hfault, ?_⟩
  rw [set, ofBytes, checkBound, if_neg (Nat.not_lt.2 hlen), hcheck]
  rfl

/-- a call is accepted and replaces the content, or it is refused for a reason and changes nothing -/
theorem set_cases (bytes : List UInt8) :
    Accepted kind bound bytes ∧ b.set bytes = (⟨bytes⟩, .ok ()) ∨
      ∃ e, RefusedFor kind bound bytes e ∧ b.set bytes = (b, .error e) := by
  rcases Nat.lt_or_ge bound.toNat bytes.length with hlong | hlen
  · exact .inr ⟨_, .tooLong hlong, b.set_of_too_long hlong⟩
  by_cases htext : kind = .text → WellFormed bytes
  · exact .inl ⟨⟨hlen, htext⟩, b.set_of_accepted ⟨hlen, htext⟩⟩
  · obtain ⟨hkind, hill⟩ := Classical.not_imp.1 htext
    subst hkind
    obtain ⟨f, hfault, hset⟩ := b.set_of_ill_formed hlen hill
    exact .inr ⟨_, .notText hlen rfl hill hfault, hset⟩

theorem set_of_not_accepted (h : ¬Accepted kind bound bytes) : (b.set bytes).1 = b := by
  rcases b.set_cases bytes with ⟨ha, -⟩ | ⟨e, -, hset⟩
  · exact absurd ha h
  · rw [hset]

/-! ## Any calls -/

/-- the container after some calls, accepted or not -/
def setAll (b : BoundedBytes kind bound) (calls : List (List UInt8)) : BoundedBytes kind bound :=
  calls.foldl (fun b bytes => (b.set bytes).1) b

/-- the bytes of the last call that was accepted, none if there was no such call -/
def lastAccepted (kind : ByteKind) (bound : UInt32) (calls : List (List UInt8)) : List UInt8 :=
  ((calls.filter (Accepted kind bound ·)).getLast?).getD []

theorem lastAccepted_append_of_accepted (calls : List (List UInt8)) (h : Accepted kind bound bytes) :
    lastAccepted kind bound (calls ++ [bytes]) = bytes := by
  have hlast : [bytes].filter (Accepted kind bound ·) = [bytes] := List.filter_cons_of_pos (decide_eq_true h)
  rw [lastAccepted, List.filter_append, hlast, List.getLast?_concat, Option.getD_some]

theorem lastAccepted_append_of_not (calls : List (List UInt8)) (h : ¬Accepted kind bound bytes) :
    lastAccepted kind bound (calls ++ [bytes]) = lastAccepted kind bound calls := by
  have hlast : [bytes].filter (Accepted kind bound ·) = [] :=
    List.filter_cons_of_neg fun haccepted => h (of_decide_eq_true haccepted)
  rw [lastAccepted, List.filter_append, hlast, List.append_nil, lastAccepted]

/-- what is read before any call is accepted as well -/
theorem lastAccepted_accepted (kind : ByteKind) (bound : UInt32) (calls : List (List UInt8)) :
    Accepted kind bound (lastAccepted kind bound calls) := by
  rw [lastAccepted]
  cases h : (calls.filter (Accepted kind bound ·)).getLast? with
  | none => exact ⟨Nat.zero_le _, fun _ => ⟨[], rfl⟩⟩
  | some bytes => exact of_decide_eq_true (List.mem_filter.1 (List.mem_of_getLast? h)).2

theorem content_setAll (kind : ByteKind) (bound : UInt32) (calls : List (List UInt8)) :
    (setAll ({} : BoundedBytes kind bound) calls).content = lastAccepted kind bound calls := by
  induction calls using List.reverseRecOn with
  | nil => rfl
  | append_singleton calls bytes ih =>
    rw [setAll, List.foldl_append]
    change ((setAll {} calls).set bytes).1.content = _
    by_cases h : Accepted kind bound bytes
    · rw [set_of_accepted _ h, lastAccepted_append_of_accepted calls h]
    · rw [set_of_not_accepted _ h, lastAccepted_append_of_not calls h, ih]

/-- the text of a content that is one has these bytes -/
theorem encode_text (b : BoundedBytes kind bound) (h : WellFormed b.content) : encode b.text.toList = b.content := by
  obtain ⟨cs, hcs⟩ := wellFormed_iff.1 h
  rw [text, Text.Utf8.text, hcs, String.toList_ofList]
  exact decode_eq_ok_iff.1 hcs

/-- a container that was empty holds what the calls since then make it hold -/
structure HoldsLast (calls : List (List UInt8)) (b : BoundedBytes kind bound) : Prop where
  content : b.content = lastAccepted kind bound calls
  length_le : b.content.length ≤ bound.toNat
  text : kind = .text → encode b.text.toList = b.content
  succeeds_iff : ∀ bytes, (b.set bytes).2 = .ok () ↔ Accepted kind bound bytes
  fails : ∀ bytes e, (b.set bytes).2 = .error e → RefusedFor kind bound bytes e ∧ (b.set bytes).1 = b

/-- **After any calls a container holds what was accepted last.** The next call succeeds exactly when its bytes are
short enough and, for a text, well formed; otherwise it says why, the bound before the text, and changes nothing. -/
theorem holds_last_accepted :
    (∀ kind bound calls, HoldsLast calls (setAll ({} : BoundedBytes kind bound) calls)) ∧
      (∀ calls, HoldsLast calls (setAll ({} : Sample.Name) calls)) ∧
      ∀ calls, HoldsLast calls (setAll ({} : Sample.Blob) calls) := by
  have holds : ∀ kind bound calls, HoldsLast calls (setAll ({} : BoundedBytes kind bound) calls) := by
    intro kind bound calls
    have hcontent := content_setAll kind bound calls
    have haccepted := lastAccepted_accepted kind bound calls
    rw [← hcontent] at haccepted
    generalize setAll ({} : BoundedBytes kind bound) calls = b at hcontent haccepted
    refine ⟨hcontent, haccepted.1, fun hkind => b.encode_text (haccepted.2 hkind), fun bytes => ?_,
      fun bytes e he => ?_⟩
    · rcases b.set_cases bytes with ⟨ha, hset⟩ | ⟨e, hrefused, hset⟩
      · exact iff_of_true (by rw [hset]) ha
      · exact iff_of_false (by rw [hset]; exact nofun) (not_accepted_of_refusedFor hrefused)
    · rcases b.set_cases bytes with ⟨ha, hset⟩ | ⟨e', hrefused, hset⟩
      · rw [hset] at he
        cases he
      · rw [hset] at he ⊢
        obtain rfl := Except.error.inj he
        exact ⟨hrefused, rfl⟩
  exact ⟨holds, holds .text 32, holds .raw 16⟩

end BoundedBytes

end Xdr
