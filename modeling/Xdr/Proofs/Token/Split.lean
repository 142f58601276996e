/-
How a source falls into tokens.

`Splits before cs toks` says that `cs`, behind `before`, is trivia, a token, trivia, a token and so on, with trivia at
its end: each token is spelled there as it is, is as long as it can be, and has the position that it stands at.
- `splits_of_scanFrom`, `scanFrom_of_splits`: scanning finds such tokens, and finds them where there are such.
- `scan_eq_ok_iff`: both together, for a whole source.
-/
import Xdr.Proofs.Token.Trivia

namespace Xdr

/-- what follows the lexeme does not go on with it -/
def Lexeme.EndsBefore (l : Lexeme) (rest : List Char) : Prop :=
  startsWithWordChar rest = false ∨ ∃ p, l = .punct p

/-- the text `cs` behind `before`, as trivia and tokens in turn -/
inductive Splits : List Char → List Char → List Token → Prop
  | done {before gap : List Char} (hgap : Trivia before gap []) : Splits before gap []
  | token {before gap rest : List Char} {l : Lexeme} {toks : List Token} (hgap : Trivia before gap (l.chars ++ rest))
    (hspelled : l.wellSpelled = true) (hmaximal : l.EndsBefore rest)
    (hrest : Splits (before ++ gap ++ l.chars) rest toks) :
    Splits before (gap ++ (l.chars ++ rest)) (⟨l, .after (before ++ gap)⟩ :: toks)

/-- a lexeme that is read takes all that goes on with it -/
theorem endsBefore_of_lexeme? {c : Char} {r rest : List Char} {l : Lexeme} (h : lexeme? c r = some (l, rest)) :
    l.EndsBefore rest := by
  unfold lexeme? at h
  split at h
  · cases h
    exact .inr ⟨_, rfl⟩
  · split_ifs at h <;> cases h
    all_goals exact .inl (startsWithWordChar_dropWhile r)

/-- what is scanned behind `before` falls into the tokens that are found -/
theorem splits_of_scanFrom {before cs : List Char} {s : Scanned}
    (h : scanFrom (.advance .start before) cs = .ok s) :
    Splits before cs s.tokens ∧ s.stop = .after (before ++ cs) := by
  generalize hp : Cursor.start.advance before = p at h
  fun_induction scanFrom p cs generalizing before s with
  | case1 | case3 | case4 => cases h
  | case2 p cs q hskip =>
    subst hp
    cases h
    obtain ⟨gap, rfl, rfl, hgap⟩ := exists_trivia_of_skipGap hskip
    rw [List.append_nil]
    exact ⟨.done hgap, pos_advance_start _⟩
  | case5 p cs q c r hskip l rest hlex s' hrest ih =>
    subst hp
    cases h
    obtain ⟨gap, rfl, rfl, hgap⟩ := exists_trivia_of_skipGap hskip
    obtain ⟨hsplits, hstop⟩ := ih (Cursor.advance_append _ _ _) hrest
    rw [← chars_append_of_lexeme? hlex] at hgap ⊢
    refine ⟨?_, by simpa using hstop⟩
    rw [pos_advance_start]
    exact .token hgap (wellSpelled_of_lexeme? hlex) (endsBefore_of_lexeme? hlex) hsplits

/-- the tokens that a text falls into are found -/
theorem scanFrom_of_splits {before cs : List Char} {toks : List Token} (h : Splits before cs toks) :
    scanFrom (.advance .start before) cs = .ok ⟨toks, .after (before ++ cs)⟩ := by
  induction h with
  | @done before gap hgap =>
    have hskip := skipGap_of_trivia hgap
    rw [List.append_nil] at hskip
    rw [scanFrom_end hskip, pos_advance_start]
  | @token before gap rest l toks hgap hspelled hmaximal _ ih =>
    obtain ⟨c, r, hchars, hlex⟩ := lexeme?_of_wellSpelled hspelled hmaximal
    have hskip := skipGap_of_trivia hgap
    rw [skipGap_of_startsLexeme _ (startsLexeme_of_wellSpelled hspelled rest), hchars] at hskip
    rw [hchars, scanFrom_lexeme hskip hlex, ← Cursor.advance_append, ih, pos_advance_start, ← hchars]
    simp [Except.map]

theorem splits_of_scan {source : String} {s : Scanned} (h : scan source = .ok s) :
    Splits [] source.toList s.tokens ∧ s.stop = .after source.toList :=
  splits_of_scanFrom (show scanFrom (.advance .start []) _ = _ from h)

theorem scan_of_splits {source : String} {toks : List Token} (h : Splits [] source.toList toks) :
    scan source = .ok ⟨toks, .after source.toList⟩ :=
  scanFrom_of_splits h

/-- **Scanning loses nothing, and its positions are true.** A source is scanned exactly when it falls into trivia and
tokens in turn; the tokens are those that it falls into, each as long as it can be and at the line and the column where
it stands, and the text stops behind its last character. -/
theorem scan_eq_ok_iff {source : String} {s : Scanned} :
    scan source = .ok s ↔ Splits [] source.toList s.tokens ∧ s.stop = .after source.toList := by
  constructor
  · exact splits_of_scan
  · rintro ⟨hsplits, hstop⟩
    rw [scan_of_splits hsplits, ← hstop]

end Xdr
