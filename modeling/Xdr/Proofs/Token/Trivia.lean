/-
What stands between tokens.

`Trivia before gap after` says that `gap`, between `before` and `after`, is made up of blanks, block comments, comments
to the end of a line, and lines that begin with a `%`. Whether a `%` begins its line is a question about `before`, and
whether a comment reaches the end of its line one about `after`.
- `advance_start`: a cursor counts the line breaks of a text and the characters behind the last one.
- `skipGap_of_trivia`, `exists_trivia_of_skipGap`: scanning passes over trivia, and over nothing else.
- `eq_of_after_eq`: two first parts of one text that end at one position are the same.
-/
import Mathlib.Data.List.DropRight
import Mathlib.Data.List.Infix
import Xdr.Proofs.Token.Spelling

namespace Xdr

open Text

/-! ## Positions in a text -/

/-- the characters behind the last line break -/
def lastLine (cs : List Char) : List Char := cs.rtakeWhile (· ≠ '\n')

/-- the position behind a text: its line breaks and the characters behind the last of them, both counted from 1 -/
def Position.after (cs : List Char) : Position := ⟨1 + cs.count '\n', 1 + (lastLine cs).length⟩

theorem lastLine_concat (cs : List Char) (c : Char) :
    lastLine (cs ++ [c]) = if c = '\n' then [] else lastLine cs ++ [c] := by
  by_cases hc : c = '\n' <;> simp [lastLine, hc]

/-- a line that goes on, or the last line of what is added -/
theorem lastLine_append (cs ds : List Char) :
    lastLine (cs ++ ds) = if '\n' ∈ ds then lastLine ds else lastLine cs ++ ds := by
  induction ds using List.reverseRecOn with
  | nil => simp
  | append_singleton ds d ih =>
    rw [← List.append_assoc, lastLine_concat, lastLine_concat, ih]
    by_cases hd : d = '\n'
    · simp [hd]
    · by_cases hds : '\n' ∈ ds <;> simp [hd, hds, Ne.symm hd]

/-- a cursor counts lines and columns, and knows whether its line is blank so far -/
theorem advance_start (cs : List Char) : Cursor.start.advance cs =
    ⟨(Position.after cs).line, (Position.after cs).column, (lastLine cs).all isBlank⟩ := by
  induction cs using List.reverseRecOn with
  | nil => rfl
  | append_singleton cs c ih =>
    rw [Cursor.advance_append, ih]
    change Cursor.step _ c = _
    by_cases hc : c = '\n'
    · subst hc
      simp [Cursor.step, Position.after, lastLine_concat, List.count_append, Nat.add_assoc]
    · simp [Cursor.step, Position.after, lastLine_concat, List.count_append, hc, Nat.add_assoc]

theorem pos_advance_start (cs : List Char) : (Cursor.start.advance cs).pos = .after cs := by
  rw [advance_start]
  rfl

/-- what follows a position on the same line stands behind it -/
theorem after_append_of_line_eq {cs ds : List Char} (h : (Position.after (cs ++ ds)).line = (Position.after cs).line) :
    (Position.after (cs ++ ds)).column = (Position.after cs).column + ds.length := by
  have hcount : ds.count '\n' = 0 := by
    simp only [Position.after, List.count_append] at h
    omega
  rw [List.count_eq_zero] at hcount
  simp [Position.after, lastLine_append, hcount, Nat.add_assoc]

theorem eq_nil_of_after_append {cs ds : List Char} (h : Position.after (cs ++ ds) = .after cs) : ds = [] := by
  have hcolumn := after_append_of_line_eq (congrArg Position.line h)
  rw [h] at hcolumn
  exact List.eq_nil_of_length_eq_zero (by omega)

/-- the position tells how far into the text it is -/
theorem eq_of_after_eq {before a a' b b' : List Char} (htext : a ++ b = a' ++ b')
    (h : Position.after (before ++ a) = .after (before ++ a')) : a = a' := by
  rcases List.append_eq_append_iff.1 htext with ⟨x, rfl, -⟩ | ⟨x, rfl, -⟩
  · rw [← List.append_assoc] at h
    rw [eq_nil_of_after_append h.symm, List.append_nil]
  · rw [← List.append_assoc] at h
    rw [eq_nil_of_after_append h, List.append_nil]

/-! ## Trivia -/

/-- only blanks stand on the line so far -/
def FreshLine (before : List Char) : Prop := (lastLine before).all isBlank = true

/-- what follows the end of a line: a line break, or nothing -/
def EndsLine : List Char → Prop
  | [] => True
  | c :: _ => c = '\n'

/-- the text of a comment that is still open: `*/` does not occur in it -/
def OpenComment (text : List Char) : Prop := ¬ ['*', '/'] <:+: text

instance (text : List Char) : Decidable (OpenComment text) := inferInstanceAs (Decidable (¬ _))

/-- the text `gap`, between `before` and `after`, separates tokens -/
inductive Trivia : List Char → List Char → List Char → Prop
  | nil (before after : List Char) : Trivia before [] after
  | blank {before gap after : List Char} {c : Char} (hblank : isBlank c = true)
    (h : Trivia (before ++ [c]) gap after) : Trivia before (c :: gap) after
  /-- up to the end of the line -/
  | lineComment {before text gap after : List Char} (htext : '\n' ∉ text) (hend : EndsLine (gap ++ after))
    (h : Trivia (before ++ '/' :: '/' :: text) gap after) : Trivia before ('/' :: '/' :: text ++ gap) after
  /-- closed where `*/` stands first -/
  | blockComment {before text gap after : List Char} (htext : OpenComment text)
    (h : Trivia (before ++ '/' :: '*' :: (text ++ ['*', '/'])) gap after) :
    Trivia before ('/' :: '*' :: (text ++ ['*', '/']) ++ gap) after
  /-- a line whose first character that is not blank is a `%` -/
  | passthrough {before text gap after : List Char} (hfirst : FreshLine before)
    (htext : '\n' ∉ text) (hend : EndsLine (gap ++ after)) (h : Trivia (before ++ '%' :: text) gap after) :
    Trivia before ('%' :: text ++ gap) after

theorem fresh_advance_start (cs : List Char) : (Cursor.start.advance cs).fresh = true ↔ FreshLine cs := by
  rw [advance_start]
  rfl

/-! ## Scanning passes over trivia -/

/-- a line is passed over up to its end -/
theorem skipGap_line_append (p : Cursor) {text rest : List Char} (htext : '\n' ∉ text) (hend : EndsLine rest) :
    skipGap .line p (text ++ rest) = skipGap .outside (p.advance text) rest := by
  induction text generalizing p with
  | nil =>
    cases rest with
    | nil => rfl
    | cons c r =>
      obtain rfl : c = '\n' := hend
      exact (skipGap_blank p (by decide) r).symm
  | cons c text ih =>
    rw [List.mem_cons, not_or] at htext
    rw [List.cons_append, skipGap, if_neg (Ne.symm htext.1), ih _ htext.2]
    rfl

/-- a character closes a comment when it is a slash behind a star -/
theorem openComment_concat {text : List Char} {c : Char} (h : OpenComment text) :
    OpenComment (text ++ [c]) ↔ ¬ (['*'] <:+ text ∧ c = '/') := by
  have hsuffix : ['*', '/'] <:+ text ++ [c] ↔ ['*'] <:+ text ∧ c = '/' := by
    constructor
    · rintro ⟨front, hfront⟩
      have hparts : (front ++ ['*']) ++ ['/'] = text ++ [c] := by simpa using hfront
      obtain ⟨htext, hc⟩ := List.append_inj' hparts rfl
      exact ⟨⟨front, htext⟩, (List.singleton_inj.1 hc).symm⟩
    · rintro ⟨⟨front, rfl⟩, rfl⟩
      exact ⟨front, by simp⟩
  rw [OpenComment, List.infix_concat_iff, hsuffix, or_iff_left h]

theorem endsInStar_concat (text : List Char) (c : Char) : decide (c = '*') = true ↔ ['*'] <:+ text ++ [c] := by
  simp [List.suffix_concat_iff, List.append_eq_singleton_iff, eq_comm]

theorem OpenComment.left {text rest : List Char} (h : OpenComment (text ++ rest)) : OpenComment text :=
  fun hclosed => h (hclosed.trans List.infix_append_left)

/-- a block comment is passed over up to its end; `read` is its text so far, which ends in a star or not -/
theorem skipGap_block_append (start : Nat) {star : Bool} (p : Cursor) (read : List Char) {text : List Char}
    (rest : List Char) (hstar : star = true ↔ ['*'] <:+ read) (hopen : OpenComment (read ++ text)) :
    skipGap (.block start star) p (text ++ '*' :: '/' :: rest) =
      skipGap .outside (p.advance (text ++ ['*', '/'])) rest := by
  induction text generalizing p star read with
  | nil => simp [skipGap, Cursor.advance]
  | cons c text ih =>
    rw [List.append_cons] at hopen
    have hgoes : ¬ (star = true ∧ c = '/') := by
      rw [hstar]
      exact (openComment_concat hopen.left.left).1 hopen.left
    rw [List.cons_append, skipGap, if_neg hgoes, ih _ _ (endsInStar_concat read c) hopen]
    rfl

/-! ## The parts of a gap -/

theorem skipGap_slashStar (p : Cursor) (cs : List Char) :
    skipGap .outside p ('/' :: '*' :: cs) = skipGap (.block p.line false) (p.advance ['/', '*']) cs := by
  simp [skipGap, isBlank, blankRanges, Cursor.advance]

theorem skipGap_lineComment (p : Cursor) {text rest : List Char} (htext : '\n' ∉ text) (hend : EndsLine rest) :
    skipGap .outside p ('/' :: '/' :: text ++ rest) = skipGap .outside (p.advance ('/' :: '/' :: text)) rest := by
  have hopen : skipGap .outside p ('/' :: '/' :: text ++ rest) =
      skipGap .line (p.advance ['/', '/']) (text ++ rest) := by
    simp [skipGap, isBlank, blankRanges, Cursor.advance]
  rw [hopen, skipGap_line_append _ htext hend]
  rfl

theorem skipGap_blockComment (p : Cursor) {text : List Char} (hopen : OpenComment text) (rest : List Char) :
    skipGap .outside p ('/' :: '*' :: (text ++ ['*', '/']) ++ rest) =
      skipGap .outside (p.advance ('/' :: '*' :: (text ++ ['*', '/']))) rest := by
  have hassoc : '/' :: '*' :: (text ++ ['*', '/']) ++ rest = '/' :: '*' :: (text ++ '*' :: '/' :: rest) := by simp
  rw [hassoc, skipGap_slashStar, skipGap_block_append _ _ [] _ (by simp) hopen]
  rfl

theorem skipGap_passthrough {p : Cursor} (hfresh : p.fresh = true) {text rest : List Char} (htext : '\n' ∉ text)
    (hend : EndsLine rest) :
    skipGap .outside p ('%' :: text ++ rest) = skipGap .outside (p.advance ('%' :: text)) rest := by
  have hopen : skipGap .outside p ('%' :: text ++ rest) = skipGap .line (p.step '%') (text ++ rest) := by
    rw [List.cons_append]
    cases text ++ rest <;> simp [skipGap, isBlank, blankRanges, hfresh]
  rw [hopen, skipGap_line_append _ htext hend]
  rfl

/-- **Scanning passes over trivia**, and goes on behind it. -/
theorem skipGap_of_trivia {before gap after : List Char} (h : Trivia before gap after) :
    skipGap .outside (.advance .start before) (gap ++ after) =
      skipGap .outside (.advance .start (before ++ gap)) after := by
  induction h with
  | nil before after => rw [List.append_nil, List.nil_append]
  | @blank before gap after c hblank _ ih =>
    rw [List.cons_append, skipGap_blank _ hblank, List.append_cons, ← ih, Cursor.advance_append]
    rfl
  | lineComment htext hend _ ih =>
    rw [List.append_assoc, skipGap_lineComment _ htext hend, ← Cursor.advance_append, ih, List.append_assoc]
  | blockComment htext _ ih =>
    rw [List.append_assoc, skipGap_blockComment _ htext, ← Cursor.advance_append, ih, List.append_assoc]
  | @passthrough before text gap after hfirst htext hend _ ih =>
    have hfresh : (Cursor.start.advance before).fresh = true := (fresh_advance_start before).2 hfirst
    rw [List.append_assoc, skipGap_passthrough hfresh htext hend, ← Cursor.advance_append, ih, List.append_assoc]

theorem exists_lineEnd (cs : List Char) : ∃ text rest, cs = text ++ rest ∧ '\n' ∉ text ∧ EndsLine rest := by
  induction cs with
  | nil => exact ⟨[], [], rfl, List.not_mem_nil, trivial⟩
  | cons c cs ih =>
    by_cases hc : c = '\n'
    · exact ⟨[], c :: cs, rfl, List.not_mem_nil, hc⟩
    · obtain ⟨text, rest, rfl, htext, hend⟩ := ih
      exact ⟨c :: text, rest, rfl, by simp [Ne.symm hc, htext], hend⟩

/-- a block comment that is passed over ends somewhere; `read` is its text so far -/
theorem exists_commentEnd (read : List Char) {start : Nat} {star : Bool} {p q : Cursor} {cs r : List Char}
    (h : skipGap (.block start star) p cs = .ok (q, r)) (hstar : star = true ↔ ['*'] <:+ read)
    (hread : OpenComment read) : ∃ text rest, read ++ cs = text ++ '*' :: '/' :: rest ∧ OpenComment text := by
  induction cs generalizing p star read with
  | nil => cases h
  | cons c cs ih =>
    rw [skipGap] at h
    split_ifs at h with hclosed
    · obtain ⟨hstar', rfl⟩ := hclosed
      obtain ⟨text, rfl⟩ := hstar.1 hstar'
      exact ⟨text, cs, by simp, hread.left⟩
    · rw [hstar, ← openComment_concat hread] at hclosed
      rw [List.append_cons]
      exact ih _ h (endsInStar_concat read c) hclosed

/-- how a gap begins, if there is one -/
theorem skipGap_cases {p q : Cursor} {cs r : List Char} (h : skipGap .outside p cs = .ok (q, r)) :
    (q = p ∧ r = cs) ∨
    (∃ c cs', cs = c :: cs' ∧ isBlank c = true) ∨
    (∃ cs', cs = '/' :: '/' :: cs') ∨
    (∃ cs', cs = '/' :: '*' :: cs') ∨
    (∃ cs', cs = '%' :: cs' ∧ p.fresh = true) := by
  match cs with
  | [] =>
    cases h
    exact .inl ⟨rfl, rfl⟩
  | [c] =>
    rw [skipGap] at h
    split_ifs at h with hblank hpercent
    · exact .inr (.inl ⟨c, [], rfl, hblank⟩)
    · obtain ⟨rfl, hfresh⟩ := hpercent
      exact .inr (.inr (.inr (.inr ⟨[], rfl, hfresh⟩)))
    · cases h
      exact .inl ⟨rfl, rfl⟩
  | c :: d :: cs =>
    rw [skipGap] at h
    split_ifs at h with hblank hpercent hline hblock
    · exact .inr (.inl ⟨c, d :: cs, rfl, hblank⟩)
    · obtain ⟨rfl, hfresh⟩ := hpercent
      exact .inr (.inr (.inr (.inr ⟨d :: cs, rfl, hfresh⟩)))
    · obtain ⟨rfl, rfl⟩ := hline
      exact .inr (.inr (.inl ⟨cs, rfl⟩))
    · obtain ⟨rfl, rfl⟩ := hblock
      exact .inr (.inr (.inr (.inl ⟨cs, rfl⟩)))
    · cases h
      exact .inl ⟨rfl, rfl⟩

/-- **Scanning passes over nothing but trivia.** -/
theorem exists_trivia_of_skipGap {before cs r : List Char} {q : Cursor}
    (h : skipGap .outside (.advance .start before) cs = .ok (q, r)) :
    ∃ gap, cs = gap ++ r ∧ q = .advance .start (before ++ gap) ∧ Trivia before gap r := by
  rcases skipGap_cases h with ⟨rfl, rfl⟩ | ⟨c, cs', rfl, hblank⟩ | ⟨cs', rfl⟩ | ⟨cs', rfl⟩ | ⟨cs', rfl, hfresh⟩
  · exact ⟨[], rfl, by rw [List.append_nil], .nil before r⟩
  · have hrest : skipGap .outside (.advance .start (before ++ [c])) cs' = .ok (q, r) := by
      rw [Cursor.advance_append]
      exact (skipGap_blank _ hblank cs').symm.trans h
    obtain ⟨gap, rfl, rfl, htrivia⟩ := exists_trivia_of_skipGap hrest
    exact ⟨c :: gap, rfl, by rw [List.append_assoc, List.singleton_append], .blank hblank htrivia⟩
  · obtain ⟨text, rest, rfl, htext, hend⟩ := exists_lineEnd cs'
    have hrest : skipGap .outside (.advance .start (before ++ '/' :: '/' :: text)) rest = .ok (q, r) := by
      rwa [Cursor.advance_append, ← skipGap_lineComment _ htext hend]
    obtain ⟨gap, rfl, rfl, htrivia⟩ := exists_trivia_of_skipGap hrest
    exact ⟨'/' :: '/' :: text ++ gap, by simp, by simp, .lineComment htext hend htrivia⟩
  · obtain ⟨text, rest, htext, hopen⟩ := exists_commentEnd [] ((skipGap_slashStar _ _).symm.trans h) (by simp)
      (by simp [OpenComment])
    obtain rfl : cs' = text ++ '*' :: '/' :: rest := htext
    have hrest : skipGap .outside (.advance .start (before ++ '/' :: '*' :: (text ++ ['*', '/']))) rest =
        .ok (q, r) := by
      rw [Cursor.advance_append, ← skipGap_blockComment _ hopen]
      simpa using h
    obtain ⟨gap, rfl, rfl, htrivia⟩ := exists_trivia_of_skipGap hrest
    exact ⟨'/' :: '*' :: (text ++ ['*', '/']) ++ gap, by simp, by simp, .blockComment hopen htrivia⟩
  · obtain ⟨text, rest, rfl, htext, hend⟩ := exists_lineEnd cs'
    have hrest : skipGap .outside (.advance .start (before ++ '%' :: text)) rest = .ok (q, r) := by
      rwa [Cursor.advance_append, ← skipGap_passthrough hfresh htext hend]
    obtain ⟨gap, rfl, rfl, htrivia⟩ := exists_trivia_of_skipGap hrest
    have hfirst := (fresh_advance_start before).1 hfresh
    exact ⟨'%' :: text ++ gap, by simp, by simp, .passthrough hfirst htext hend htrivia⟩
termination_by cs.length
decreasing_by
  all_goals
    subst_vars
    simp only [List.length_cons, List.length_append]
    omega

end Xdr
