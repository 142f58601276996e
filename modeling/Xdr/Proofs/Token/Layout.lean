/-
More trivia between tokens.

A piece of trivia that is complete in itself can stand before any token. A lexeme holds no blank, so no line is fresh
behind one, and no comment that needs the end of its line is followed by one; what stands before a token has no bearing
on anything but where the tokens behind it stand.
- `CompleteTrivia.trivia`: complete trivia is trivia wherever it stands.
- `Splits.rebase`: a text falls into the same lexemes behind another text.
- `Splits.insert`: a text falls into the same lexemes with complete trivia before one of them.
- `exists_append_of_mem_scan`, `exists_scan_insert`: where a token of a source stands, and what is added before it.
-/
import Xdr.Proofs.Token.Split

namespace Xdr

open Text

/-- trivia that is complete in itself -/
inductive CompleteTrivia : List Char → Prop
  | blanks {gap : List Char} (h : gap.all isBlank = true) : CompleteTrivia gap
  | lineComment {text : List Char} (h : '\n' ∉ text) : CompleteTrivia ('/' :: '/' :: text ++ ['\n'])
  | blockComment {text : List Char} (h : OpenComment text) : CompleteTrivia ('/' :: '*' :: (text ++ ['*', '/']))
  | passthrough {text : List Char} (h : '\n' ∉ text) : CompleteTrivia ('\n' :: '%' :: text ++ ['\n'])

variable {before before' gap gap' after after' a b cs : List Char} {toks : List Token} {tok : Token}

/-! ## Lexemes hold no blanks -/

theorem isBlank_eq_false_of_mem_chars {l : Lexeme} (h : l.wellSpelled = true) {c : Char} (hc : c ∈ l.chars) :
    isBlank c = false := by
  have hword : ∀ {c : Char} {r : List Char}, isBlank c = false → r.all isWordChar = true →
      ∀ d ∈ c :: r, isBlank d = false := by
    rintro c r hfirst hr d (_ | ⟨_, hd⟩)
    · exact hfirst
    · exact isBlank_eq_false_of_isWordChar (List.all_eq_true.1 hr d hd)
  cases l with
  | punct p =>
    obtain rfl := List.mem_singleton.1 hc
    cases p <;> decide
  | word s | number s =>
    cases hs : s.toList with
    | nil => simp [Lexeme.chars, hs] at hc
    | cons first r =>
      have hfirst := startsLexeme_of_wellSpelled h []
      simp only [Lexeme.chars, hs, List.cons_append, startsLexeme, Bool.and_eq_true, Bool.not_eq_true'] at hfirst
      simp only [Lexeme.wellSpelled, isWord, isNumber, hs, Bool.and_eq_true] at h
      rw [Lexeme.chars, hs] at hc
      exact hword hfirst.1.1 h.2 c hc

theorem chars_ne_nil {l : Lexeme} (h : l.wellSpelled = true) : l.chars ≠ [] := by
  intro hnil
  have hstarts := startsLexeme_of_wellSpelled h []
  rw [hnil] at hstarts
  cases hstarts

/-- no line ends where a lexeme begins -/
theorem not_endsLine_chars {l : Lexeme} (h : l.wellSpelled = true) (rest : List Char) :
    ¬ EndsLine (l.chars ++ rest) := by
  obtain ⟨c, r, hchars⟩ := List.exists_cons_of_ne_nil (chars_ne_nil h)
  have hblank : isBlank c = false := isBlank_eq_false_of_mem_chars h (by simp [hchars])
  rw [hchars]
  rintro (rfl : c = '\n')
  cases hblank

/-- no line is fresh behind a lexeme -/
theorem not_freshLine_chars {l : Lexeme} (h : l.wellSpelled = true) (before : List Char) :
    ¬ FreshLine (before ++ l.chars) := by
  obtain ⟨r, c, hchars⟩ := (List.eq_nil_or_concat l.chars).resolve_left (chars_ne_nil h)
  have hblank : isBlank c = false := isBlank_eq_false_of_mem_chars h (by simp [hchars])
  have hc : c ≠ '\n' := by
    rintro rfl
    cases hblank
  rw [FreshLine, hchars, List.concat_eq_append, ← List.append_assoc, lastLine_concat, if_neg hc]
  simp [hblank]

/-! ## Trivia in other places -/

/-- what is added behind a text leaves its line as fresh as before, or fresher -/
theorem freshLine_append (h : FreshLine before → FreshLine before') (cs : List Char) :
    FreshLine (before ++ cs) → FreshLine (before' ++ cs) := by
  simp only [FreshLine, lastLine_append] at h ⊢
  split_ifs
  · exact id
  · simp only [List.all_append, Bool.and_eq_true]
    exact fun hfresh => ⟨h hfresh.1, hfresh.2⟩

theorem Trivia.rebase (h : Trivia before gap after) (hfresh : FreshLine before → FreshLine before') :
    Trivia before' gap after := by
  induction h generalizing before' with
  | nil => exact .nil _ _
  | blank hblank _ ih => exact .blank hblank (ih (freshLine_append hfresh _))
  | lineComment htext hend _ ih => exact .lineComment htext hend (ih (freshLine_append hfresh _))
  | blockComment htext _ ih => exact .blockComment htext (ih (freshLine_append hfresh _))
  | passthrough hfirst htext hend _ ih =>
    exact .passthrough (hfresh hfirst) htext hend (ih (freshLine_append hfresh _))

/-- trivia before what ends no line can stand before anything -/
theorem Trivia.of_not_endsLine (h : Trivia before gap after) (hafter : ¬ EndsLine after) (after' : List Char) :
    Trivia before gap after' := by
  have hends : ∀ {gap : List Char}, EndsLine (gap ++ after) → EndsLine (gap ++ after') := by
    rintro (_ | ⟨c, gap⟩) hend
    · exact absurd hend hafter
    · exact hend
  induction h with
  | nil => exact .nil _ _
  | blank hblank _ ih => exact .blank hblank (ih hafter hends)
  | lineComment htext hend _ ih => exact .lineComment htext (hends hend) (ih hafter hends)
  | blockComment htext _ ih => exact .blockComment htext (ih hafter hends)
  | passthrough hfirst htext hend _ ih => exact .passthrough hfirst htext (hends hend) (ih hafter hends)

theorem Trivia.append (h : Trivia before gap (gap' ++ after)) (h' : Trivia (before ++ gap) gap' after) :
    Trivia before (gap ++ gap') after := by
  generalize hrest : gap' ++ after = rest at h
  induction h with
  | nil => rwa [List.append_nil] at h'
  | blank hblank _ ih => exact .blank hblank (ih (by simpa using h') hrest)
  | lineComment htext hend _ ih =>
    subst hrest
    rw [List.append_assoc]
    exact .lineComment htext (by rwa [List.append_assoc]) (ih (by simpa using h') rfl)
  | blockComment htext _ ih =>
    rw [List.append_assoc]
    exact .blockComment htext (ih (by simpa using h') hrest)
  | passthrough hfirst htext hend _ ih =>
    subst hrest
    rw [List.append_assoc]
    exact .passthrough hfirst htext (by rwa [List.append_assoc]) (ih (by simpa using h') rfl)

theorem trivia_of_blanks (h : gap.all isBlank = true) (before after : List Char) : Trivia before gap after := by
  induction gap generalizing before with
  | nil => exact .nil _ _
  | cons c gap ih =>
    rw [List.all_cons, Bool.and_eq_true] at h
    exact .blank h.1 (ih h.2 _)

/-- **Complete trivia is trivia wherever it stands.** -/
theorem CompleteTrivia.trivia (h : CompleteTrivia gap) (before after : List Char) : Trivia before gap after := by
  have hbreak : ∀ before, Trivia before ['\n'] after := fun before => trivia_of_blanks (by decide) before after
  cases h with
  | blanks h => exact trivia_of_blanks h before after
  | lineComment h => exact .lineComment h rfl (hbreak _)
  | blockComment h =>
    rw [← List.append_nil ('/' :: _)]
    exact .blockComment h (.nil _ after)
  | passthrough h =>
    have hfresh : FreshLine (before ++ ['\n']) := by simp [FreshLine, lastLine_concat]
    exact .blank (by decide) (.passthrough hfresh h rfl (hbreak _))

theorem CompleteTrivia.startsWithWordChar (h : CompleteTrivia gap) : startsWithWordChar gap = false := by
  cases h with
  | blanks h =>
    cases gap with
    | nil => rfl
    | cons c gap =>
      rw [List.all_cons, Bool.and_eq_true] at h
      refine Bool.eq_false_iff.2 fun hword => ?_
      rw [isBlank_eq_false_of_isWordChar hword] at h
      cases h.1
  | lineComment | blockComment => exact show isWordChar '/' = false by decide
  | passthrough => exact show isWordChar '\n' = false by decide

/-! ## Tokens with more between them -/

/-- a text falls into the same lexemes behind another text -/
theorem Splits.rebase (h : Splits before cs toks) (hfresh : FreshLine before → FreshLine before') :
    ∃ toks', Splits before' cs toks' ∧ toks'.map Token.lexeme = toks.map Token.lexeme := by
  induction h generalizing before' with
  | done hgap => exact ⟨[], .done (hgap.rebase hfresh), rfl⟩
  | token hgap hspelled hmaximal _ ih =>
    obtain ⟨toks', hsplits, hlexemes⟩ := ih (freshLine_append (freshLine_append hfresh _) _)
    exact ⟨_, .token (hgap.rebase hfresh) hspelled hmaximal hsplits, congrArg (List.cons _) hlexemes⟩

/-- a token stands where its position says -/
theorem Splits.exists_of_mem (h : Splits before cs toks) (ht : tok ∈ toks) :
    ∃ a b, cs = a ++ (tok.lexeme.chars ++ b) ∧ tok.pos = .after (before ++ a) := by
  induction h with
  | done => cases ht
  | @token before gap rest l toks hgap hspelled hmaximal hrest ih =>
    rcases List.mem_cons.1 ht with rfl | ht
    · exact ⟨gap, rest, rfl, rfl⟩
    · obtain ⟨a, b, rfl, hpos⟩ := ih ht
      exact ⟨gap ++ (l.chars ++ a), b, by simp, by simpa using hpos⟩

theorem Lexeme.EndsBefore.insert {l : Lexeme} (h : l.EndsBefore (a ++ b)) (hgap : startsWithWordChar gap = false) :
    l.EndsBefore (a ++ gap ++ b) := by
  refine h.imp_left fun h => ?_
  cases a with
  | nil => exact startsWithWordChar_append hgap h
  | cons c a => exact h

/-- **A text falls into the same lexemes with complete trivia before a token.** -/
theorem Splits.insert (hgap' : CompleteTrivia gap') (h : Splits before (a ++ b) toks) (ht : tok ∈ toks)
    (hpos : tok.pos = .after (before ++ a)) :
    ∃ toks', Splits before (a ++ gap' ++ b) toks' ∧ toks'.map Token.lexeme = toks.map Token.lexeme := by
  generalize hcs : a ++ b = cs at h
  induction h generalizing a with
  | done => cases ht
  | @token before gap rest l toks hgap hspelled hmaximal hrest ih =>
    have hmoved : ∀ after', Trivia before gap after' := hgap.of_not_endsLine (not_endsLine_chars hspelled rest)
    rcases List.mem_cons.1 ht with rfl | ht
    · -- before the first token: its gap grows, and what follows stands behind another text
      obtain rfl : gap = a := eq_of_after_eq hcs.symm hpos
      obtain rfl : b = l.chars ++ rest := List.append_cancel_left hcs
      have hgrown := (hmoved (gap' ++ (l.chars ++ rest))).append (hgap'.trivia (before ++ gap) (l.chars ++ rest))
      have hfresh : FreshLine (before ++ gap ++ l.chars) → FreshLine (before ++ (gap ++ gap') ++ l.chars) :=
        fun hfresh => absurd hfresh (not_freshLine_chars hspelled _)
      obtain ⟨toks', hsplits, hlexemes⟩ := hrest.rebase hfresh
      exact ⟨_, .token hgrown hspelled hmaximal hsplits, congrArg (List.cons l) hlexemes⟩
    · -- further back: the same in the rest
      obtain ⟨x, y, rfl, hpos'⟩ := hrest.exists_of_mem ht
      have hparts : a ++ b = (gap ++ (l.chars ++ x)) ++ (tok.lexeme.chars ++ y) := by simpa using hcs
      obtain rfl : a = gap ++ (l.chars ++ x) := eq_of_after_eq hparts (by simpa [hpos'] using hpos.symm)
      obtain rfl : b = tok.lexeme.chars ++ y := List.append_cancel_left hparts
      obtain ⟨toks', hsplits, hlexemes⟩ := ih ht hpos' rfl
      have htoken := Splits.token (hmoved _) hspelled (hmaximal.insert hgap'.startsWithWordChar) hsplits
      exact ⟨⟨l, _⟩ :: toks', by simpa using htoken, congrArg (List.cons l) hlexemes⟩

/-- a token of a source stands where its position says -/
theorem exists_append_of_mem_scan {source : String} {s : Scanned} (h : scan source = .ok s) (ht : tok ∈ s.tokens) :
    ∃ a b : String, source = a ++ b ∧ tok.pos = .after a.toList ∧ tok.lexeme.chars <+: b.toList := by
  obtain ⟨a, b, hsource, hpos⟩ := (splits_of_scan h).1.exists_of_mem ht
  refine ⟨.ofList a, .ofList (tok.lexeme.chars ++ b), String.toList_inj.1 ?_, ?_, ?_⟩
  · rw [hsource, String.toList_append, String.toList_ofList, String.toList_ofList]
  · rw [hpos, String.toList_ofList, List.nil_append]
  · rw [String.toList_ofList]
    exact List.prefix_append _ _

/-- a source that is scanned is scanned to the same lexemes with complete trivia before a token -/
theorem exists_scan_insert {a b g : String} {s : Scanned} (hg : CompleteTrivia g.toList) (h : scan (a ++ b) = .ok s)
    (ht : tok ∈ s.tokens) (hpos : tok.pos = .after a.toList) :
    ∃ s', scan (a ++ g ++ b) = .ok s' ∧ s'.tokens.map Token.lexeme = s.tokens.map Token.lexeme := by
  have hsplits := (splits_of_scan h).1
  rw [String.toList_append] at hsplits
  obtain ⟨toks', hsplits', hlexemes⟩ := hsplits.insert hg ht hpos
  refine ⟨⟨toks', _⟩, scan_of_splits ?_, hlexemes⟩
  rwa [String.toList_append, String.toList_append]

end Xdr
