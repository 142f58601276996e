/-
Lines of lexemes.

A line is laid out as lexemes with blanks before each. It is scanned to these lexemes when the blanks are blanks, and
some stand wherever two words or numbers meet; what a text ends its lines with separates them just so.
- `scans_line`: a spaced line of well spelled lexemes is scanned to them.
- `Scans.unlines`: lines that end in line breaks are scanned one by one.
-/
import Xdr.Proofs.Token.Concat
import Xdr.Proofs.Token.Layout

namespace Xdr

open Text

/-- the source is scanned to tokens of these lexemes -/
def Scans (source : String) (ls : List Lexeme) : Prop :=
  ∃ s, scan source = .ok s ∧ s.tokens.map Token.lexeme = ls

/-! ## One line -/

/-- lexemes, each with the blanks before it -/
abbrev Line := List (List Char × Lexeme)

def lineChars : Line → List Char
  | [] => []
  | (gap, l) :: rest => gap ++ (l.chars ++ lineChars rest)

def lineText (line : Line) : String := String.ofList (lineChars line)

def lineLexemes (line : Line) : List Lexeme := line.map Prod.snd

def Lexeme.isPunct : Lexeme → Bool
  | .punct _ => true
  | .word _ | .number _ => false

/-- some blanks between words and numbers, and nothing but blanks anywhere -/
def isSpaced : Line → Bool
  | [] => true
  | [(gap, _)] => gap.all isBlank
  | (gap, l) :: (gap', m) :: rest =>
    gap.all isBlank && (!gap'.isEmpty || l.isPunct || m.isPunct) && isSpaced ((gap', m) :: rest)

theorem isBlank_of_isSpaced {gap : List Char} {l : Lexeme} {rest : Line} (h : isSpaced ((gap, l) :: rest) = true) :
    gap.all isBlank = true ∧ isSpaced rest = true := by
  cases rest with
  | nil => exact ⟨h, rfl⟩
  | cons p rest =>
    simp only [isSpaced, Bool.and_eq_true] at h
    exact ⟨h.1.1, h.2⟩

/-- blanks begin no word -/
theorem startsWithWordChar_blanks {gap : List Char} (h : gap.all isBlank = true) (hne : gap ≠ []) (rest : List Char) :
    startsWithWordChar (gap ++ rest) = false := by
  obtain ⟨c, gap, rfl⟩ := List.exists_cons_of_ne_nil hne
  exact (CompleteTrivia.blanks h).startsWithWordChar

/-- a lexeme of a spaced line ends where the next one begins -/
theorem endsBefore_of_isSpaced {gap : List Char} {l : Lexeme} {rest : Line} (h : isSpaced ((gap, l) :: rest) = true) :
    l.EndsBefore (lineChars rest) := by
  match rest with
  | [] => exact .inl rfl
  | (gap', m) :: rest =>
    have hgap' := (isBlank_of_isSpaced (isBlank_of_isSpaced h).2).1
    simp only [isSpaced, Bool.and_eq_true, Bool.or_eq_true] at h
    rcases h.1.2 with (hgap | hl) | hm
    · exact .inl (startsWithWordChar_blanks hgap' (by simpa using hgap) _)
    · cases l with
      | punct p => exact .inr ⟨p, rfl⟩
      | word s | number s => cases hl
    · by_cases hnil : gap' = []
      · subst hnil
        cases m with
        | punct p => exact .inl (isWordChar_punct p)
        | word s | number s => cases hm
      · exact .inl (startsWithWordChar_blanks hgap' hnil _)

/-- the induction is on the line, behind any text -/
theorem exists_splits_line {line : Line} (hspelled : ∀ l ∈ lineLexemes line, l.wellSpelled = true)
    (hspaced : isSpaced line = true) (before : List Char) :
    ∃ toks, Splits before (lineChars line) toks ∧ toks.map Token.lexeme = lineLexemes line := by
  induction line generalizing before with
  | nil => exact ⟨[], .done (.nil before []), rfl⟩
  | cons p rest ih =>
    obtain ⟨gap, l⟩ := p
    obtain ⟨hgap, hrest⟩ := isBlank_of_isSpaced hspaced
    have hmem : ∀ m ∈ lineLexemes rest, m.wellSpelled = true := fun m hm =>
      hspelled m (List.mem_cons_of_mem l hm)
    obtain ⟨toks, hsplits, hlexemes⟩ := ih hmem hrest (before ++ gap ++ l.chars)
    exact ⟨_, .token (trivia_of_blanks hgap _ _) (hspelled l List.mem_cons_self) (endsBefore_of_isSpaced hspaced)
      hsplits, congrArg (List.cons l) hlexemes⟩

/-- **A spaced line of well spelled lexemes is scanned to them.** -/
theorem scans_line {line : Line} (hspelled : ∀ l ∈ lineLexemes line, l.wellSpelled = true)
    (hspaced : isSpaced line = true) : Scans (lineText line) (lineLexemes line) := by
  obtain ⟨toks, hsplits, hlexemes⟩ := exists_splits_line hspelled hspaced []
  rw [← String.toList_ofList (l := lineChars line)] at hsplits
  exact ⟨_, scan_of_splits hsplits, hlexemes⟩

/-! ## Many lines -/

theorem Scans.append_newline {a b : String} {ls ms : List Lexeme} (ha : Scans a ls) (hb : Scans b ms) :
    Scans (a ++ "\n" ++ b) (ls ++ ms) := by
  obtain ⟨s, hs, rfl⟩ := ha
  obtain ⟨s', hs', rfl⟩ := hb
  refine ⟨_, scan_append_newline hs hs', ?_⟩
  rw [List.map_append, List.map_map]
  rfl

/-- **Lines are scanned one by one.** -/
theorem Scans.unlines {α : Type} {text : α → String} {lexemes : α → List Lexeme} {xs : List α}
    (h : ∀ x ∈ xs, Scans (text x) (lexemes x)) :
    Scans (String.join (xs.map fun x => text x ++ "\n")) (xs.flatMap lexemes) := by
  induction xs with
  | nil => exact ⟨_, scan_of_splits (.done (.nil [] [])), rfl⟩
  | cons x xs ih =>
    rw [List.forall_mem_cons] at h
    rw [List.map_cons, String.join_cons, List.flatMap_cons]
    exact h.1.append_newline (ih h.2)

end Xdr
