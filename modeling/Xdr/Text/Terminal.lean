/-
What a terminal shows of a text. Control characters and escape sequences are left out.

`Reader.next` is one step over a character, and `visible` is the run over a text. Within a sequence that is no string, a
tab or a line break is shown where it stands; after it the text is shown again, up to the next character without a
shape, and only there does the sequence go on.
- `canShow_of_mem_visibleFrom`: only characters with a shape come through.
- `visibleFrom_eq_self`: a text of such characters is shown as it is.
-/
namespace Xdr.Text.Terminal

/-- the sequence that a reader stands in -/
inductive Place where
  | outside
  /-- behind the escape character -/
  | escape
  /-- behind an escape character with marks -/
  | marked
  /-- in a control sequence, which a letter ends -/
  | control
  /-- at the start of a device string, in its numbers, and behind its marks -/
  | device
  | deviceNumber
  | deviceMark
  /-- in the contents of a string -/
  | contents
  /-- in a system command, which a bell ends -/
  | command
deriving DecidableEq, Repr

/-- tabs and line breaks -/
def isBreak (c : Char) : Bool := c = '\t' || c = '\n' || c = '\x0c' || c = '\r'

/-- characters that are not controls -/
def canShow (c : Char) : Bool := isBreak c || (' ' ≤ c && c ≤ '~') || 128 ≤ c.toNat

/-- the marks that may stand before the last character of a sequence -/
def isMark (c : Char) : Bool := ' ' ≤ c && c ≤ '/'

/-- the octet 9C, which ends a string, is among those of the character -/
def endsString (c : Char) : Bool := (String.utf8EncodeChar c).contains 0x9c

/-- the place behind a character; an escape character begins a new sequence anywhere, and two controls cancel it -/
def Place.next (p : Place) (c : Char) : Place :=
  if c = '\x1b' then .escape
  else if c = '\x18' || c = '\x1a' then .outside
  else match p with
    | .outside => .outside
    | .escape =>
      if isMark c then .marked
      else match c with
        | '[' => .control
        | ']' => .command
        | 'P' => .device
        | 'X' | '^' | '_' => .contents
        | _ => if '0' ≤ c && c ≤ '~' then .outside else .escape
    | .marked => if '0' ≤ c && c ≤ '~' then .outside else .marked
    | .control => if '@' ≤ c && c ≤ '~' then .outside else .control
    | .device =>
      if isMark c then .deviceMark
      else if c = ':' || ('@' ≤ c && c ≤ '~') then .contents
      else if '0' ≤ c && c ≤ '?' then .deviceNumber
      else .device
    | .deviceNumber =>
      if isMark c then .deviceMark else if c = ':' || ('<' ≤ c && c ≤ '~') then .contents else .deviceNumber
    | .deviceMark => if '0' ≤ c && c ≤ '~' then .contents else .deviceMark
    | .contents => if endsString c then .outside else .contents
    | .command => if c = '\x07' then .outside else .command

/-- outside everything is shown, and within the short sequences a break -/
def Place.shows (p : Place) (c : Char) : Bool :=
  match p with
  | .outside => true
  | .escape | .marked | .control => isBreak c
  | _ => false

/-- where a reader stands, and whether the last character was shown -/
structure Reader where
  place : Place := .outside
  showing : Bool := false
deriving DecidableEq, Repr

def Reader.shows (r : Reader) (c : Char) : Bool := canShow c && (r.showing || r.place.shows c)

/-- one step; a character outside ASCII that is shown leaves the sequence -/
def Reader.next (r : Reader) (c : Char) : Reader :=
  if r.shows c then { place := if c.toNat < 128 then r.place else .outside, showing := true }
  else { place := r.place.next c, showing := false }

/-- the characters that a reader shows -/
def visibleFrom : Reader → List Char → List Char
  | _, [] => []
  | r, c :: cs => if r.shows c then c :: visibleFrom (r.next c) cs else visibleFrom (r.next c) cs

def visible (text : String) : String := String.ofList (visibleFrom {} text.toList)

/-! ## Laws -/

theorem canShow_of_mem_visibleFrom {c : Char} {cs : List Char} {r : Reader} (h : c ∈ visibleFrom r cs) :
    canShow c = true := by
  induction cs generalizing r with
  | nil => simp [visibleFrom] at h
  | cons d ds ih =>
    rw [visibleFrom] at h
    split at h
    · rename_i hd
      rcases List.mem_cons.1 h with rfl | h
      · simp only [Reader.shows, Bool.and_eq_true] at hd
        exact hd.1
      · exact ih h
    · exact ih h

/-- outside of sequences a character with a shape is shown, and the reader stays outside -/
theorem Reader.next_of_outside {r : Reader} {c : Char} (hr : r.place = .outside) (hc : canShow c = true) :
    r.shows c = true ∧ (r.next c).place = .outside := by
  have hs : r.shows c = true := by simp [Reader.shows, Place.shows, hr, hc]
  exact ⟨hs, by simp [Reader.next, hs, hr]⟩

theorem visibleFrom_eq_self {r : Reader} {cs : List Char} (hr : r.place = .outside)
    (h : ∀ c ∈ cs, canShow c = true) : visibleFrom r cs = cs := by
  induction cs generalizing r with
  | nil => rfl
  | cons c cs ih =>
    have ⟨hs, hp⟩ := Reader.next_of_outside hr (h c (List.mem_cons_self ..))
    rw [visibleFrom, if_pos hs, ih hp fun d hd => h d (List.mem_cons_of_mem _ hd)]

end Xdr.Text.Terminal
