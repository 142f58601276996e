/-
Lexemes and their text.

`wellSpelled` says which lexemes a text can hold: words and numbers made of the right characters, and all punctuation.
Two statements tie it to scanning:
- `wellSpelled_of_mem_scan`: every token of a scanned source is well spelled;
- `exists_scan_render`: well spelled lexemes, written by `render` with blanks where words would run together, are
  scanned back as they were.
-/
import Mathlib.Tactic.SplitIfs
import Xdr.Token.Scan

namespace Xdr

open Text

/-! ## Words, names and values -/

/-- the text of an identifier or a keyword -/
def isWord (s : String) : Bool :=
  match s.toList with
  | [] => false
  | c :: r => (c.isAlpha || c = '_') && r.all isWordChar

/-- the text of a number, with a sign or none; its digits need not make sense in any base -/
def isNumber (s : String) : Bool :=
  match s.toList with
  | [] => false
  | c :: r => (c.isDigit || (c = '-' && startsWithDigit r)) && r.all isWordChar

def isName (s : String) : Bool := isWord s && !isReserved s

def isValue (s : String) : Bool := isNumber s || isName s

/-- a lexeme that a source can hold -/
def Lexeme.wellSpelled : Lexeme → Bool
  | .word s => isWord s
  | .number s => isNumber s
  | .punct _ => true

/-! ## Characters of lexemes -/

def startsWithWordChar : List Char → Bool
  | [] => false
  | c :: _ => isWordChar c

theorem isWordChar_of_isDigit {c : Char} (h : c.isDigit = true) : isWordChar c = true := by
  simp [isWordChar, Char.isAlphanum, h]

theorem isWordChar_of_isAlpha {c : Char} (h : c.isAlpha = true) : isWordChar c = true := by
  simp [isWordChar, Char.isAlphanum, h]

/-- word characters lie between the digits and the small letters -/
theorem toNat_of_isWordChar {c : Char} (h : isWordChar c = true) : 48 ≤ c.toNat ∧ c.toNat ≤ 122 := by
  unfold isWordChar Char.isAlphanum Char.isAlpha Char.isUpper Char.isLower Char.isDigit at h
  simp only [Bool.or_eq_true, Bool.and_eq_true, decide_eq_true_eq, UInt32.le_iff_toNat_le, ge_iff_le] at h
  change (((65 ≤ c.toNat ∧ c.toNat ≤ 90) ∨ (97 ≤ c.toNat ∧ c.toNat ≤ 122)) ∨
    (48 ≤ c.toNat ∧ c.toNat ≤ 57)) ∨ c = '_' at h
  rcases h with ((h | h) | h) | rfl
  · omega
  · omega
  · omega
  · decide

theorem isBlank_eq_false_of_isWordChar {c : Char} (h : isWordChar c = true) : isBlank c = false := by
  have hc := toNat_of_isWordChar h
  simp only [isBlank, blankRanges, List.any_cons, List.any_nil, Bool.or_false, Bool.or_eq_false_iff,
    Bool.and_eq_false_iff, decide_eq_false_iff_not]
  omega

theorem isWordChar_punct (p : Punct) : isWordChar p.char = false := by
  cases p <;> decide

theorem ofChar?_eq_none_of_isWordChar {c : Char} (h : isWordChar c = true) : Punct.ofChar? c = none := by
  cases hp : Punct.ofChar? c with
  | none => rfl
  | some p =>
    rw [← Punct.char_of_ofChar? hp, isWordChar_punct] at h
    exact absurd h (by decide)

theorem not_isDigit_of_isAlpha {c : Char} (h : (c.isAlpha || c = '_') = true) : c.isDigit = false ∧ c ≠ '-' := by
  unfold Char.isAlpha Char.isUpper Char.isLower at h
  simp only [Bool.or_eq_true, Bool.and_eq_true, decide_eq_true_eq, UInt32.le_iff_toNat_le, ge_iff_le] at h
  change ((65 ≤ c.toNat ∧ c.toNat ≤ 90) ∨ (97 ≤ c.toNat ∧ c.toNat ≤ 122)) ∨ c = '_' at h
  have hd : c.isDigit = true → c.toNat ≤ 57 := by
    intro hd
    simp only [Char.isDigit, Bool.and_eq_true, decide_eq_true_eq, UInt32.le_iff_toNat_le] at hd
    exact hd.2
  refine ⟨?_, ?_⟩
  · rw [← Bool.not_eq_true]
    intro h'
    have hle := hd h'
    rcases h with (h | h) | rfl
    · omega
    · omega
    · exact absurd hle (by decide)
  · rintro rfl
    exact absurd h (by decide)

theorem startsWithWordChar_append {cs ds : List Char} (hcs : startsWithWordChar cs = false)
    (hds : startsWithWordChar ds = false) : startsWithWordChar (cs ++ ds) = false := by
  cases cs with
  | nil => exact hds
  | cons c cs => exact hcs

/-- a run of word characters that ends, ends at a character of another kind -/
theorem startsWithWordChar_dropWhile (cs : List Char) : startsWithWordChar (cs.dropWhile isWordChar) = false := by
  induction cs with
  | nil => rfl
  | cons c cs ih =>
    by_cases hc : isWordChar c = true
    · rwa [List.dropWhile_cons_of_pos hc]
    · rw [List.dropWhile_cons_of_neg hc]
      exact Bool.eq_false_iff.2 hc

/-! ## Reading one lexeme -/

/-- a run of word characters ends where another character stands, or the text ends -/
theorem takeWhile_word {w rest : List Char} (hw : w.all isWordChar = true) (hr : startsWithWordChar rest = false) :
    (w ++ rest).takeWhile isWordChar = w ∧ (w ++ rest).dropWhile isWordChar = rest := by
  rw [List.all_eq_true] at hw
  rw [List.takeWhile_append_of_pos hw, List.dropWhile_append_of_pos hw]
  cases rest with
  | nil => simp
  | cons c r =>
    have hc : ¬ isWordChar c = true := by simpa [startsWithWordChar] using hr
    simp [hc]

theorem startsWithDigit_append {w : List Char} (h : startsWithDigit w = true) (rest : List Char) :
    startsWithDigit (w ++ rest) = true := by
  cases w with
  | nil => exact absurd h (by decide)
  | cons c w => exact h

/-- a well spelled lexeme is read back, if no word character follows a word or number -/
theorem lexeme?_of_wellSpelled {l : Lexeme} (h : l.wellSpelled = true) {rest : List Char}
    (hr : startsWithWordChar rest = false ∨ ∃ p, l = .punct p) :
    ∃ c r, l.chars ++ rest = c :: r ∧ lexeme? c r = some (l, rest) := by
  cases l with
  | punct p => exact ⟨p.char, rest, rfl, by simp [lexeme?]⟩
  | word s =>
    have hr : startsWithWordChar rest = false := by simpa using hr
    simp only [Lexeme.wellSpelled, isWord] at h
    cases hs : s.toList with
    | nil => simp [hs] at h
    | cons c w =>
      simp only [hs, Bool.and_eq_true] at h
      obtain ⟨hc, hw⟩ := h
      obtain ⟨ht, hd⟩ := takeWhile_word hw hr
      have hword : isWordChar c = true := by
        rcases Bool.or_eq_true_iff.1 hc with hc | hc
        · exact isWordChar_of_isAlpha hc
        · simp [isWordChar, hc]
      obtain ⟨hdig, hsign⟩ := not_isDigit_of_isAlpha hc
      refine ⟨c, w ++ rest, by simp [Lexeme.chars, hs], ?_⟩
      simp [lexeme?, ofChar?_eq_none_of_isWordChar hword, hdig, hsign, hc, ht, hd, ← hs]
  | number s =>
    have hr : startsWithWordChar rest = false := by simpa using hr
    simp only [Lexeme.wellSpelled, isNumber] at h
    cases hs : s.toList with
    | nil => simp [hs] at h
    | cons c w =>
      simp only [hs, Bool.and_eq_true] at h
      obtain ⟨hc, hw⟩ := h
      obtain ⟨ht, hd⟩ := takeWhile_word hw hr
      have hnone : Punct.ofChar? c = none := by
        rcases Bool.or_eq_true_iff.1 hc with hc | hc
        · exact ofChar?_eq_none_of_isWordChar (isWordChar_of_isDigit hc)
        · simp only [Bool.and_eq_true, decide_eq_true_eq] at hc
          rw [hc.1]
          decide
      have hnum : (c.isDigit || (c = '-' && startsWithDigit (w ++ rest))) = true := by
        rcases Bool.or_eq_true_iff.1 hc with hc | hc
        · simp [hc]
        · simp only [Bool.and_eq_true] at hc
          simp [hc.1, startsWithDigit_append hc.2]
      refine ⟨c, w ++ rest, by simp [Lexeme.chars, hs], ?_⟩
      simp [lexeme?, hnone, hnum, ht, hd, ← hs]

theorem startsWithDigit_takeWhile {r : List Char} (h : startsWithDigit r = true) :
    startsWithDigit (r.takeWhile isWordChar) = true := by
  cases r with
  | nil => exact absurd h (by decide)
  | cons c r =>
    have hc : isWordChar c = true := isWordChar_of_isDigit h
    simpa [hc, startsWithDigit] using h

theorem wellSpelled_of_lexeme? {c : Char} {r rest : List Char} {l : Lexeme} (h : lexeme? c r = some (l, rest)) :
    l.wellSpelled = true := by
  unfold lexeme? at h
  split at h
  · cases h
    rfl
  · split at h
    · next hc =>
      cases h
      rcases Bool.or_eq_true_iff.1 hc with hc | hc
      · simp [Lexeme.wellSpelled, isNumber, hc]
      · simp only [Bool.and_eq_true] at hc
        simp [Lexeme.wellSpelled, isNumber, hc.1, startsWithDigit_takeWhile hc.2]
    · split at h
      · next hc =>
        cases h
        simp [Lexeme.wellSpelled, isWord, hc]
      · cases h

/-! ## Passing over gaps -/

/-- begins with a character that ends a gap -/
def startsLexeme : List Char → Bool
  | [] => false
  | c :: _ => !isBlank c && c != '%' && c != '/'

theorem skipGap_of_startsLexeme (p : Cursor) {cs : List Char} (h : startsLexeme cs = true) :
    skipGap .outside p cs = .ok (p, cs) := by
  cases cs with
  | nil => rfl
  | cons c r =>
    simp only [startsLexeme, Bool.and_eq_true, Bool.not_eq_true', bne_iff_ne, ne_eq] at h
    obtain ⟨⟨hb, hp⟩, hs⟩ := h
    cases r <;> simp [skipGap, hb, hp, hs]

theorem skipGap_blank (p : Cursor) {c : Char} (h : isBlank c = true) (cs : List Char) :
    skipGap .outside p (c :: cs) = skipGap .outside (p.step c) cs := by
  cases cs <;> simp [skipGap, h]

theorem skipGap_blanks (p : Cursor) {g : List Char} (h : g.all isBlank = true) (cs : List Char) :
    skipGap .outside p (g ++ cs) = skipGap .outside (p.advance g) cs := by
  induction g generalizing p with
  | nil => rfl
  | cons c g ih =>
    simp only [List.all_cons, Bool.and_eq_true] at h
    rw [List.cons_append, skipGap_blank p h.1, ih (p.step c) h.2]
    rfl

theorem startsLexeme_of_wellSpelled {l : Lexeme} (h : l.wellSpelled = true) (rest : List Char) :
    startsLexeme (l.chars ++ rest) = true := by
  have hword : ∀ c, isWordChar c = true → startsLexeme (c :: rest) = true := by
    intro c hc
    have hne : ∀ d, isWordChar d = false → c ≠ d := fun d hd hcd => by rw [hcd, hd] at hc; cases hc
    simp [startsLexeme, isBlank_eq_false_of_isWordChar hc, hne '%' (by decide), hne '/' (by decide)]
  cases l with
  | punct p => cases p <;> rfl
  | word s =>
    simp only [Lexeme.wellSpelled, isWord] at h
    cases hs : s.toList with
    | nil => simp [hs] at h
    | cons c w =>
      simp only [hs, Bool.and_eq_true] at h
      rcases Bool.or_eq_true_iff.1 h.1 with hc | hc
      · simpa [Lexeme.chars, hs, startsLexeme] using hword c (isWordChar_of_isAlpha hc)
      · simpa [Lexeme.chars, hs, startsLexeme] using hword c (by simp [isWordChar, hc])
  | number s =>
    simp only [Lexeme.wellSpelled, isNumber] at h
    cases hs : s.toList with
    | nil => simp [hs] at h
    | cons c w =>
      simp only [hs, Bool.and_eq_true] at h
      rcases Bool.or_eq_true_iff.1 h.1 with hc | hc
      · simpa [Lexeme.chars, hs, startsLexeme] using hword c (isWordChar_of_isDigit hc)
      · simp only [Bool.and_eq_true, decide_eq_true_eq] at hc
        rw [Lexeme.chars, hs, hc.1]
        rfl

/-! ## Scanning -/

theorem scanFrom_end {p q : Cursor} {cs : List Char} (h : skipGap .outside p cs = .ok (q, [])) :
    scanFrom p cs = .ok ⟨[], q.pos⟩ := by
  rw [scanFrom]
  split <;> simp_all

theorem scanFrom_lexeme {p q : Cursor} {cs r rest : List Char} {c : Char} {l : Lexeme}
    (hg : skipGap .outside p cs = .ok (q, c :: r)) (hl : lexeme? c r = some (l, rest)) :
    scanFrom p cs = (scanFrom (q.advance l.chars) rest).map fun s => ⟨⟨l, q.pos⟩ :: s.tokens, s.stop⟩ := by
  rw [scanFrom]
  split
  · simp_all
  · simp_all
  · next q' c' r' hg' =>
    rw [hg] at hg'
    cases hg'
    split
    · simp_all
    · next l' rest' hl' =>
      rw [hl] at hl'
      cases hl'
      cases scanFrom (q.advance l.chars) rest <;> rfl

/-- the tokens of a source are well spelled -/
theorem wellSpelled_of_mem_scanFrom {p : Cursor} {cs : List Char} {s : Scanned} (h : scanFrom p cs = .ok s) :
    ∀ tok ∈ s.tokens, tok.lexeme.wellSpelled = true := by
  fun_induction scanFrom p cs generalizing s with
  | case1 => cases h
  | case2 => cases h; simp
  | case3 => cases h
  | case4 => cases h
  | case5 p cs q c r hg l rest hl s' hs ih =>
    cases h
    simp only [List.mem_cons]
    rintro tok (rfl | htok)
    · exact wellSpelled_of_lexeme? hl
    · exact ih hs tok htok

theorem wellSpelled_of_mem_scan {source : String} {s : Scanned} (h : scan source = .ok s) :
    ∀ tok ∈ s.tokens, tok.lexeme.wellSpelled = true :=
  wellSpelled_of_mem_scanFrom h

/-! ## Rendering -/

/-- nothing stands behind an opening bracket or a star -/
def Lexeme.sticksToNext : Lexeme → Bool
  | .punct p => [Punct.lparen, .lbracket, .langle, .star].contains p
  | _ => false

/-- nothing stands before these -/
def Lexeme.sticksToLast : Lexeme → Bool
  | .punct p =>
    [Punct.semicolon, .comma, .colon, .lparen, .rparen, .lbracket, .rbracket, .langle, .rangle].contains p
  | _ => false

/-- what stands between two lexemes: a line ends behind a semicolon or an opening brace -/
def Lexeme.gap (a b : Lexeme) : List Char :=
  if b.sticksToLast then []
  else if a = .punct .semicolon ∨ a = .punct .lbrace then ['\n']
  else if a.sticksToNext then []
  else [' ']

/-- the characters of lexemes in order -/
def renderChars : List Lexeme → List Char
  | [] => []
  | [l] => l.chars ++ ['\n']
  | l :: m :: ls => l.chars ++ l.gap m ++ renderChars (m :: ls)

/-- the text of lexemes -/
def render (ls : List Lexeme) : String := String.ofList (renderChars ls)

theorem isBlank_gap (a b : Lexeme) : (a.gap b).all isBlank = true := by
  unfold Lexeme.gap
  split_ifs <;> decide

/-- what follows a word or a number in a rendering is no part of it -/
theorem startsWithWordChar_gap {l : Lexeme} (hl : l.sticksToNext = false) (m : Lexeme) (rest : List Char) :
    startsWithWordChar (l.gap m ++ (m.chars ++ rest)) = false := by
  cases hm : m.sticksToLast with
  | true =>
    cases m with
    | punct p =>
      rw [Lexeme.gap, if_pos hm]
      exact isWordChar_punct p
    | word s => cases hm
    | number s => cases hm
  | false =>
    simp only [Lexeme.gap, hm, hl]
    split_ifs <;> first | rfl | contradiction

/-- a rendering begins with its first lexeme; what follows that lexeme reads as another token -/
theorem renderChars_cons (l : Lexeme) (ls : List Lexeme) :
    ∃ g, g.all isBlank = true ∧ renderChars (l :: ls) = l.chars ++ (g ++ renderChars ls) ∧
      (startsWithWordChar (g ++ renderChars ls) = false ∨ ∃ p, l = .punct p) := by
  cases ls with
  | nil => exact ⟨['\n'], by decide, by simp [renderChars], Or.inl (by decide)⟩
  | cons m ls =>
    refine ⟨l.gap m, isBlank_gap l m, by simp [renderChars], ?_⟩
    cases l with
    | punct p => exact Or.inr ⟨p, rfl⟩
    | word s =>
      obtain ⟨g, -, hg, -⟩ := renderChars_cons m ls
      rw [hg]
      exact Or.inl (startsWithWordChar_gap rfl m _)
    | number s =>
      obtain ⟨g, -, hg, -⟩ := renderChars_cons m ls
      rw [hg]
      exact Or.inl (startsWithWordChar_gap rfl m _)

/-- the induction is on the lexemes, for any blanks in front of them -/
theorem exists_scanFrom_render (ls : List Lexeme) (h : ∀ l ∈ ls, l.wellSpelled = true) (p : Cursor) {g : List Char}
    (hg : g.all isBlank = true) :
    ∃ s, scanFrom p (g ++ renderChars ls) = .ok s ∧ s.tokens.map Token.lexeme = ls := by
  induction ls generalizing p g with
  | nil =>
    have hskip : skipGap .outside p (g ++ []) = .ok (p.advance g, []) := by rw [skipGap_blanks p hg]; rfl
    exact ⟨_, scanFrom_end hskip, rfl⟩
  | cons l ls ih =>
    have hl : l.wellSpelled = true := h l List.mem_cons_self
    obtain ⟨g', hg', hr, hsep⟩ := renderChars_cons l ls
    obtain ⟨c, r, hcr, hlex⟩ := lexeme?_of_wellSpelled hl hsep
    have hskip : skipGap .outside p (g ++ renderChars (l :: ls)) = .ok (p.advance g, c :: r) := by
      rw [skipGap_blanks p hg, hr, skipGap_of_startsLexeme _ (startsLexeme_of_wellSpelled hl _), hcr]
    obtain ⟨s, hs, htoks⟩ := ih (fun m hm => h m (List.mem_cons_of_mem l hm)) ((p.advance g).advance l.chars) hg'
    refine ⟨⟨⟨l, (p.advance g).pos⟩ :: s.tokens, s.stop⟩, ?_, by simp [htoks]⟩
    rw [scanFrom_lexeme hskip hlex, hs]
    rfl

/-- **Rendered lexemes are scanned back.** -/
theorem exists_scan_render {ls : List Lexeme} (h : ∀ l ∈ ls, l.wellSpelled = true) :
    ∃ s, scan (render ls) = .ok s ∧ s.tokens.map Token.lexeme = ls := by
  simpa [scan, render] using exists_scanFrom_render ls h .start (g := []) rfl

end Xdr
