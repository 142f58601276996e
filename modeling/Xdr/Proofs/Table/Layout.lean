/-
Sources that are laid out in another way.

A table is made of the definitions of a source, and these of the lexemes of its tokens: what stands between the tokens,
and where they stand, is found in errors alone.
- `addSource_of_lexemes`: two sources with the same lexemes leave the same table.
- `layout_does_not_matter`: complete trivia before any token of a source changes nothing.
-/
import Mathlib
import Xdr.Proofs.Grammar.Positions
import Xdr.Proofs.Table.Concat
import Xdr.Proofs.Token.Layout

namespace Xdr

/-- sources with the same lexemes leave the same table -/
theorem Table.addSource_of_lexemes {t t' : Table} {source source' : String} {n : Nat} {s s' : Scanned}
    (h : t.addSource source = (t', .ok n)) (hscan : scan source = .ok s) (hscan' : scan source' = .ok s')
    (hlexemes : s'.tokens.map Token.lexeme = s.tokens.map Token.lexeme) : t.addSource source' = (t', .ok n) := by
  obtain ⟨r, ds, hread, hparse, hinsert⟩ := addSource_eq_ok_iff.1 h
  obtain rfl : s = r := Except.ok.inj (hscan.symm.trans hread)
  exact addSource_eq_ok_iff.2 ⟨s', ds, hscan', Grammar.parse_eq_ok_of_lexemes_eq hlexemes hparse, hinsert⟩

/-- **Layout does not matter.** Every token of a source stands where its position says. Blanks, a comment up to the end
of its line, a closed comment or a line that begins with a `%`, added immediately before a token of a source that the
empty table accepts, leave the same table with the same definitions, and the same is generated. -/
theorem layout_does_not_matter {t : Table} {source : String} {n : Nat} {s : Scanned} {tok : Token}
    (hadd : Table.empty.addSource source = (t, .ok n)) (hscan : scan source = .ok s) (htok : tok ∈ s.tokens) :
    (∃ a b : String, source = a ++ b ∧ tok.pos = .after a.toList ∧ tok.lexeme.chars <+: b.toList) ∧
    ∀ a b g : String, source = a ++ b → tok.pos = .after a.toList → CompleteTrivia g.toList →
      Table.empty.addSource (a ++ g ++ b) = (t, .ok n) ∧ generateSource (a ++ g ++ b) = generateSource source := by
  refine ⟨exists_append_of_mem_scan hscan htok, ?_⟩
  rintro a b g rfl hpos hg
  obtain ⟨s', hscan', hlexemes⟩ := exists_scan_insert hg hscan htok hpos
  have hadd' := Table.addSource_of_lexemes hadd hscan hscan' hlexemes
  refine ⟨hadd', ?_⟩
  rw [generateSource, generateSource, hadd', hadd]

/-- a type that is read from tokens with nothing between them -/
def pointer : Definition := .typedef { id := "p", typeName := "int", qualifier := .optional }

def pointerTokens : List Token :=
  [⟨.word "typedef", ⟨1, 1⟩⟩, ⟨.word "int", ⟨1, 9⟩⟩, ⟨.punct .star, ⟨1, 12⟩⟩, ⟨.word "p", ⟨1, 13⟩⟩,
    ⟨.punct .semicolon, ⟨1, 14⟩⟩]

/-- a passthrough line before the star, and behind it a comment whose text is a slash -/
theorem layout_does_not_matter_pointer :
    scan "typedef int*p;" = .ok ⟨pointerTokens, ⟨1, 15⟩⟩ ∧
    Table.empty.addSource "typedef int*p;" = (Table.empty.extend pointer, .ok 1) ∧
    Table.empty.addSource ("typedef int" ++ "\n%word\n" ++ "*p;") = (Table.empty.extend pointer, .ok 1) ∧
    Table.empty.addSource ("typedef int*" ++ "/*/*/" ++ "p;") = (Table.empty.extend pointer, .ok 1) := by
  have hscan : scan "typedef int*p;" = .ok ⟨pointerTokens, ⟨1, 15⟩⟩ := by cbv
  have hparse : Grammar.parse pointerTokens = .ok [pointer] := by rfl
  have hvalid : ∀ d ∈ [pointer], d.validate = .ok () := List.forall_mem_singleton.2 rfl
  have htags : ∀ d ∈ [pointer], d.tags = [] := List.forall_mem_singleton.2 rfl
  have hfree : ∀ d ∈ [pointer], Table.empty.isDefined d.id = false := by simp [Table.isDefined, Table.empty]
  have hadd : Table.empty.addSource "typedef int*p;" = (Table.empty.extend pointer, .ok 1) :=
    Table.addSource_eq_ok_iff.2 ⟨_, _, hscan, hparse, Table.insertAll_of_nodup hvalid htags (by simp) hfree, rfl⟩
  have hword : '\n' ∉ "word".toList := by decide
  have hslash : OpenComment ['/'] := by decide
  have hstar : ⟨.punct .star, ⟨1, 12⟩⟩ ∈ pointerTokens := by decide
  have hname : ⟨.word "p", ⟨1, 13⟩⟩ ∈ pointerTokens := by decide
  obtain ⟨-, hbeforeStar⟩ := layout_does_not_matter hadd hscan hstar
  obtain ⟨-, hbeforeName⟩ := layout_does_not_matter hadd hscan hname
  refine ⟨hscan, hadd, ?_, ?_⟩
  · exact (hbeforeStar "typedef int" "*p;" "\n%word\n" rfl (by decide) (.passthrough hword)).1
  · exact (hbeforeName "typedef int*" "p;" "/*/*/" rfl (by decide) (.blockComment hslash)).1

end Xdr
