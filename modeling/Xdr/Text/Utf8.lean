/-
UTF-8: the characters of a byte sequence, and where a sequence stops being well formed.

A character is one byte below `0x80`, or a first byte and one to three further ones. What a first byte promises is a
`Pending` character; the range of the second byte excludes overlong forms, surrogates and code points that are too
large. A fault is found at the first byte that no character allows, or at an end within a character.
-/
namespace Xdr.Text.Utf8

/-- why bytes are no text -/
structure Fault where
  /-- the number of bytes before the character at fault -/
  validUpTo : Nat
  /-- the number of bytes of that character that were read and can begin no character; none at a premature end -/
  length : Option Nat
deriving DecidableEq, Repr

def Fault.message (f : Fault) : String :=
  match f.length with
  | some n => s!"invalid utf-8 sequence of {n} bytes from index {f.validUpTo}"
  | none => s!"incomplete utf-8 byte sequence from index {f.validUpTo}"

/-- a character that has begun -/
structure Pending where
  /-- the bits so far -/
  code : Nat
  read : Nat
  due : Nat
  /-- the range of the next byte -/
  low : UInt8 := 0x80
  high : UInt8 := 0xBF
deriving DecidableEq, Repr

/-- the character that a first byte from `0x80` on begins -/
def begin? (b : UInt8) : Option Pending :=
  let n := b.toNat
  if 0xC2 ≤ n ∧ n ≤ 0xDF then some ⟨n - 0xC0, 1, 1, 0x80, 0xBF⟩
  else if n = 0xE0 then some ⟨0, 1, 2, 0xA0, 0xBF⟩
  else if n = 0xED then some ⟨0xD, 1, 2, 0x80, 0x9F⟩
  else if 0xE1 ≤ n ∧ n ≤ 0xEF then some ⟨n - 0xE0, 1, 2, 0x80, 0xBF⟩
  else if n = 0xF0 then some ⟨0, 1, 3, 0x90, 0xBF⟩
  else if 0xF1 ≤ n ∧ n ≤ 0xF3 then some ⟨n - 0xF0, 1, 3, 0x80, 0xBF⟩
  else if n = 0xF4 then some ⟨4, 1, 3, 0x80, 0x8F⟩
  else none

/-- the bits of a character with one more byte -/
def Pending.extend (p : Pending) (b : UInt8) : Nat := p.code * 64 + (b.toNat - 0x80)

/-- reads bytes behind `good` bytes of whole characters -/
def decodeFrom (good : Nat) : Option Pending → List UInt8 → Except Fault (List Char)
  | none, [] => .ok []
  | some _, [] => .error ⟨good, none⟩
  | none, b :: bs =>
    if b < 0x80 then (decodeFrom (good + 1) none bs).map (Char.ofNat b.toNat :: ·)
    else match begin? b with
      | some p => decodeFrom good (some p) bs
      | none => .error ⟨good, some 1⟩
  | some p, b :: bs =>
    if p.low ≤ b && b ≤ p.high then
      if p.due ≤ 1 then (decodeFrom (good + p.read + 1) none bs).map (Char.ofNat (p.extend b) :: ·)
      else decodeFrom good (some { code := p.extend b, read := p.read + 1, due := p.due - 1 }) bs
    else .error ⟨good, some p.read⟩

/-- the characters of a well-formed sequence -/
def decode (bytes : List UInt8) : Except Fault (List Char) := decodeFrom 0 none bytes

/-- the text of a sequence, empty if it is not well formed -/
def text (bytes : List UInt8) : String :=
  match decode bytes with
  | .ok cs => String.ofList cs
  | .error _ => ""

end Xdr.Text.Utf8
