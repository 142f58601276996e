/-
Scanning of texts that follow one another.

A line break ends every gap but a block comment, and every word and number; what follows it is scanned from the start of
a line, whatever the text before ended in. Scanning looks at a line's number only to report it.
- `scanFrom_down`: a text further down has the same tokens, further down.
- `scanFrom_append_newline`: behind a text that is scanned and a line break, scanning starts again.
- `scan_append_newline`: the tokens of two sources, joined by a line break, are those of both.
-/
import Xdr.Proofs.Token.Spelling

namespace Xdr

open Text

/-! ## Further down -/

namespace Position

/-- the same place `k` lines further down -/
def down (k : Nat) (p : Position) : Position := ⟨p.line + k, p.column⟩

end Position

namespace Cursor

def down (k : Nat) (p : Cursor) : Cursor := ⟨p.line + k, p.column, p.fresh⟩

@[simp] theorem line_down (k : Nat) (p : Cursor) : (p.down k).line = p.line + k := rfl

@[simp] theorem fresh_down (k : Nat) (p : Cursor) : (p.down k).fresh = p.fresh := rfl

@[simp] theorem step_down (k : Nat) (p : Cursor) (c : Char) : (p.down k).step c = (p.step c).down k := by
  unfold step
  split_ifs
  · simp [down, Nat.add_right_comm]
  · rfl

@[simp] theorem advance_down (k : Nat) (p : Cursor) (cs : List Char) :
    (p.down k).advance cs = (p.advance cs).down k := by
  induction cs generalizing p with
  | nil => rfl
  | cons c cs ih =>
    change ((p.down k).step c).advance cs = _
    rw [step_down, ih]
    rfl

@[simp] theorem pos_down (k : Nat) (p : Cursor) : (p.down k).pos = p.pos.down k := rfl

/-- after a line break, nothing of the line before is left but its number -/
theorem step_newline (p : Cursor) : p.step '\n' = start.down p.line := by
  simp [step, start, down, Nat.add_comm]

end Cursor

def Gap.down (k : Nat) : Gap → Gap
  | .block start star => .block (start + k) star
  | g => g

def Token.down (k : Nat) (t : Token) : Token := ⟨t.lexeme, t.pos.down k⟩

def Scanned.down (k : Nat) (s : Scanned) : Scanned := ⟨s.tokens.map (Token.down k), s.stop.down k⟩

def SourceError.down (k : Nat) : SourceError → SourceError
  | .invalidCharacter p c => .invalidCharacter (p.down k) c
  | .unterminatedComment line => .unterminatedComment (line + k)
  | .unexpected p e found => .unexpected (p.down k) e found
  | .unsupported p feature => .unsupported (p.down k) feature
  | .truncated e => .truncated e
  | .clash c => .clash c

/-- a result of what stands further down, where `f` moves what is read -/
def resultDown {α : Type} (k : Nat) (f : α → α) : Except SourceError α → Except SourceError α
  | .ok a => .ok (f a)
  | .error e => .error (e.down k)

/-- two characters that no gap goes on with -/
theorem skipGap_of_stop (p : Cursor) {c d : Char} (r : List Char) (hblank : ¬ isBlank c = true)
    (hpassthrough : ¬ (c = '%' ∧ p.fresh = true)) (hline : ¬ (c = '/' ∧ d = '/')) (hblock : ¬ (c = '/' ∧ d = '*')) :
    skipGap .outside p (c :: d :: r) = .ok (p, c :: d :: r) := by
  simp only [skipGap, if_neg hblank, if_neg hpassthrough, if_neg hline, if_neg hblock]

theorem skipGap_down (k : Nat) (g : Gap) (p : Cursor) (cs : List Char) :
    skipGap (g.down k) (p.down k) cs = resultDown k (fun r => (r.1.down k, r.2)) (skipGap g p cs) := by
  fun_induction skipGap g p cs with
  | case15 p c d r hblank hpassthrough hline hblock =>
    exact skipGap_of_stop (p.down k) r hblank hpassthrough hline hblock
  | _ => simp_all [skipGap, Gap.down, resultDown, SourceError.down]

theorem scanFrom_eq (p : Cursor) (cs : List Char) : scanFrom p cs =
    match skipGap .outside p cs with
    | .error e => .error e
    | .ok (q, []) => .ok ⟨[], q.pos⟩
    | .ok (q, c :: r) =>
      match lexeme? c r with
      | none => .error (.invalidCharacter q.pos c)
      | some (l, rest) => (scanFrom (q.advance l.chars) rest).map fun s => ⟨⟨l, q.pos⟩ :: s.tokens, s.stop⟩ := by
  rw [scanFrom]
  split
  · simp_all
  · simp_all
  · next q c r hskip =>
    split
    · simp_all
    · next l rest hlex =>
      simp only [hskip, hlex]
      cases scanFrom (q.advance l.chars) rest <;> rfl

/-- a text further down has the same tokens, further down -/
theorem scanFrom_down (k : Nat) (p : Cursor) (cs : List Char) :
    scanFrom (p.down k) cs = resultDown k (Scanned.down k) (scanFrom p cs) := by
  have hskip := fun (p : Cursor) cs => skipGap_down k .outside p cs
  simp only [Gap.down] at hskip
  fun_induction scanFrom p cs with
  | case1 p cs e h =>
    rw [scanFrom_eq, hskip, h]
    rfl
  | case2 p cs q h =>
    rw [scanFrom_eq, hskip, h]
    rfl
  | case3 p cs q c r h hlex =>
    rw [scanFrom_eq, hskip, h]
    simp only [resultDown, hlex]
    rfl
  | case4 p cs q c r h l rest hlex e hrest ih =>
    rw [scanFrom_eq, hskip, h]
    simp only [resultDown, hlex, Cursor.advance_down, ih, hrest]
    rfl
  | case5 p cs q c r h l rest hlex s hrest ih =>
    rw [scanFrom_eq, hskip, h]
    simp only [resultDown, hlex, Cursor.advance_down, ih, hrest]
    rfl

/-! ## Texts that end -/

/-- a text that ends in a gap: what follows a line break behind it is scanned from the next line on -/
theorem skipGap_append_of_end {g : Gap} {p q : Cursor} {cs : List Char} (h : skipGap g p cs = .ok (q, []))
    (ds : List Char) : skipGap g p (cs ++ '\n' :: ds) = skipGap .outside (q.step '\n') ds := by
  have hbreak : ∀ p, skipGap .outside p ('\n' :: ds) = skipGap .outside (p.step '\n') ds := fun p =>
    skipGap_blank p (by decide) ds
  fun_induction skipGap g p cs <;> simp_all [skipGap]

/-- a gap that ends before the text does ends there, whatever follows the text -/
theorem skipGap_append_of_cons {g : Gap} {p q : Cursor} {c : Char} {cs r : List Char}
    (h : skipGap g p cs = .ok (q, c :: r)) (ds : List Char) :
    skipGap g p (cs ++ '\n' :: ds) = .ok (q, c :: (r ++ '\n' :: ds)) := by
  fun_induction skipGap g p cs with
  | case15 p c d r' hblank hpassthrough hline hblock =>
    cases h
    exact skipGap_of_stop _ _ hblank hpassthrough hline hblock
  | _ => simp_all [skipGap]

/-- no lexeme goes on behind a line break -/
theorem lexeme?_append {c : Char} {r rest : List Char} {l : Lexeme} (h : lexeme? c r = some (l, rest))
    (ds : List Char) : lexeme? c (r ++ '\n' :: ds) = some (l, rest ++ '\n' :: ds) := by
  have hends : startsWithWordChar (r.dropWhile isWordChar ++ '\n' :: ds) = false :=
    startsWithWordChar_append (startsWithWordChar_dropWhile r) (show isWordChar '\n' = false by decide)
  obtain ⟨htake, hdrop⟩ := takeWhile_word (w := r.takeWhile isWordChar)
    (List.all_takeWhile (p := isWordChar)) hends
  rw [← List.append_assoc, List.takeWhile_append_dropWhile] at htake hdrop
  have hdigit : startsWithDigit (r ++ '\n' :: ds) = startsWithDigit r := by
    cases r <;> rfl
  unfold lexeme? at h ⊢
  rw [htake, hdrop, hdigit]
  split at h
  · next p hp =>
    cases h
    rfl
  · split_ifs at h ⊢ <;> cases h
    all_goals rfl

/-- behind a text that is scanned and a line break, scanning starts again -/
theorem scanFrom_append_newline {p : Cursor} {cs : List Char} {s : Scanned} (h : scanFrom p cs = .ok s)
    (ds : List Char) : scanFrom p (cs ++ '\n' :: ds) =
      (scanFrom (Cursor.start.down s.stop.line) ds).map fun s' => ⟨s.tokens ++ s'.tokens, s'.stop⟩ := by
  fun_induction scanFrom p cs generalizing s with
  | case1 | case3 | case4 => cases h
  | case2 p cs q hskip =>
    cases h
    have hbreak := skipGap_append_of_end hskip ds
    rw [Cursor.step_newline] at hbreak
    rw [scanFrom_eq, hbreak, ← scanFrom_eq]
    change _ = (scanFrom (Cursor.start.down q.line) ds).map _
    cases scanFrom (Cursor.start.down q.line) ds <;> rfl
  | case5 p cs q c r hskip l rest hlex s' hrest ih =>
    cases h
    rw [scanFrom_lexeme (skipGap_append_of_cons hskip ds) (lexeme?_append hlex ds), ih hrest]
    cases scanFrom (Cursor.start.down s'.stop.line) ds <;> rfl

/-- **Two sources joined by a line break have the tokens of both**, those of the second further down. -/
theorem scan_append_newline {a b : String} {s s' : Scanned} (ha : scan a = .ok s) (hb : scan b = .ok s') :
    scan (a ++ "\n" ++ b) = .ok ⟨s.tokens ++ s'.tokens.map (Token.down s.stop.line), s'.stop.down s.stop.line⟩ := by
  have hchars : (a ++ "\n" ++ b).toList = a.toList ++ '\n' :: b.toList := by simp
  rw [scan, hchars, scanFrom_append_newline ha, scanFrom_down]
  rw [scan] at hb
  rw [hb]
  rfl

end Xdr
