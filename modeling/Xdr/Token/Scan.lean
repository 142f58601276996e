/-
From the characters of a source to its tokens.

`skipGap` passes over what stands between tokens: blanks, `//` and block comments, and lines whose first non-blank
character is `%`. `lexeme?` reads one token, as long as it goes. `scan` alternates the two; a `Cursor` counts lines
and columns and remembers whether the current line is blank so far.
-/
import Xdr.Error
import Xdr.Text.Blank

namespace Xdr

open Text

/-- a place in the source: its position, and whether only blanks precede it on its line -/
structure Cursor where
  line : Nat
  column : Nat
  fresh : Bool
deriving DecidableEq, Repr

namespace Cursor

def start : Cursor := ⟨1, 1, true⟩

/-- the place after one more character -/
def step (p : Cursor) (c : Char) : Cursor :=
  if c = '\n' then ⟨p.line + 1, 1, true⟩ else ⟨p.line, p.column + 1, p.fresh && isBlank c⟩

/-- the place after a run of characters -/
def advance (p : Cursor) (cs : List Char) : Cursor := cs.foldl step p

def pos (p : Cursor) : Position := ⟨p.line, p.column⟩

theorem advance_append (p : Cursor) (cs ds : List Char) : p.advance (cs ++ ds) = (p.advance cs).advance ds := by
  simp [advance, List.foldl_append]

end Cursor

/-- where a gap between tokens is: outside comments, in a line comment or passthrough line, or in a block comment that
began on `start`, right after a star or not -/
inductive Gap where
  | outside
  | line
  | block (start : Nat) (star : Bool)
deriving DecidableEq, Repr

/-- passes over a gap; what is left is empty or begins with a character that no gap contains -/
def skipGap : Gap → Cursor → List Char → Except SourceError (Cursor × List Char)
  | .block start _, _, [] => .error (.unterminatedComment start)
  | .outside, p, [] => .ok (p, [])
  | .line, p, [] => .ok (p, [])
  | .block start star, p, c :: r =>
    if star = true ∧ c = '/' then skipGap .outside (p.step c) r
    else skipGap (.block start (decide (c = '*'))) (p.step c) r
  | .line, p, c :: r => if c = '\n' then skipGap .outside (p.step c) r else skipGap .line (p.step c) r
  | .outside, p, [c] =>
    if isBlank c then .ok (p.step c, []) else if c = '%' ∧ p.fresh = true then .ok (p.step c, []) else .ok (p, [c])
  | .outside, p, c :: d :: r =>
    if isBlank c then skipGap .outside (p.step c) (d :: r)
    else if c = '%' ∧ p.fresh = true then skipGap .line (p.step c) (d :: r)
    else if c = '/' ∧ d = '/' then skipGap .line ((p.step c).step d) r
    else if c = '/' ∧ d = '*' then skipGap (.block p.line false) ((p.step c).step d) r
    else .ok (p, c :: d :: r)

theorem length_skipGap {g : Gap} {p q : Cursor} {cs r : List Char} (h : skipGap g p cs = .ok (q, r)) :
    r.length ≤ cs.length := by
  fun_induction skipGap g p cs <;> grind

/-- characters of words and numbers -/
def isWordChar (c : Char) : Bool := c.isAlphanum || c = '_'

def startsWithDigit : List Char → Bool
  | [] => false
  | c :: _ => c.isDigit

/-- the lexeme that begins with `c`, and what follows it -/
def lexeme? (c : Char) (r : List Char) : Option (Lexeme × List Char) :=
  match Punct.ofChar? c with
  | some p => some (.punct p, r)
  | none =>
    let text := String.ofList (c :: r.takeWhile isWordChar)
    let rest := r.dropWhile isWordChar
    if c.isDigit || (c = '-' && startsWithDigit r) then some (.number text, rest)
    else if c.isAlpha || c = '_' then some (.word text, rest)
    else none

/-- a lexeme is a first part of what it is read from -/
theorem chars_append_of_lexeme? {c : Char} {r rest : List Char} {l : Lexeme} (h : lexeme? c r = some (l, rest)) :
    l.chars ++ rest = c :: r := by
  unfold lexeme? at h
  split at h
  · next p hp =>
    cases h
    simp [Lexeme.chars, Punct.char_of_ofChar? hp]
  · split at h
    · cases h
      simp [Lexeme.chars, List.takeWhile_append_dropWhile]
    · split at h <;> cases h
      simp [Lexeme.chars, List.takeWhile_append_dropWhile]

theorem length_lexeme? {c : Char} {r rest : List Char} {l : Lexeme} (h : lexeme? c r = some (l, rest)) :
    rest.length ≤ r.length := by
  unfold lexeme? at h
  have hd : (r.dropWhile isWordChar).length ≤ r.length := (List.dropWhile_sublist _).length_le
  split at h
  · cases h; exact Nat.le_refl _
  · split at h
    · cases h; exact hd
    · split at h <;> cases h
      exact hd

/-- the tokens of `cs`, which stands at `p` -/
def scanFrom (p : Cursor) (cs : List Char) : Except SourceError Scanned :=
  match _hgap : skipGap .outside p cs with
  | .error e => .error e
  | .ok (q, []) => .ok ⟨[], q.pos⟩
  | .ok (q, c :: r) =>
    match _hlex : lexeme? c r with
    | none => .error (.invalidCharacter q.pos c)
    | some (l, rest) =>
      match scanFrom (q.advance l.chars) rest with
      | .error e => .error e
      | .ok s => .ok ⟨⟨l, q.pos⟩ :: s.tokens, s.stop⟩
termination_by cs.length
decreasing_by
  have h1 := length_skipGap _hgap
  have h2 := length_lexeme? _hlex
  simp only [List.length_cons] at h1
  omega

/-- the tokens of a source -/
def scan (source : String) : Except SourceError Scanned := scanFrom .start source.toList

end Xdr
