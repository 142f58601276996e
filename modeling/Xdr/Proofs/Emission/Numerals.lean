/-
Integer literals in the generated text.

The text of a literal is read twice: by the schema's rules, where bounds, lengths, tags and labels are worked out, and
by Rust's, where it stands respelled in the generated text. `Numeral` and `Denotes` are Rust's rules.
- `Denotes.unique`: a text denotes one integer by Rust's rules, if any.
- `numeral_respell`, `denotes_literal`: a respelled literal denotes what it spelled in the schema.
- `Table.yields_of_integer`: what is worked out of an expression comes from the integer that it leads to.
- `literals_keep_values`: both readings of a literal agree, in particular of one that a constant is generated with.
-/
import Xdr.Proofs.Emission.TagNumbers
import Xdr.Proofs.Integer.Literal

namespace Xdr

open Integer

namespace Code

variable {cs : List Char} {n m : Nat} {text : String} {v w : Int}

/-! ## Rust's integer literals -/

/-- the digits among which underscores may stand, which mean nothing -/
def unseparated (cs : List Char) : List Char := cs.filter fun c => c ≠ '_'

/-- an integer literal of Rust without a suffix, and its value: decimal digits, the first of them in front, or digits
behind the mark of another radix -/
inductive Numeral : List Char → Nat → Prop
  | decimal {cs : List Char} {n : Nat} (hfirst : cs.head? ≠ some '_') (h : Digits 10 (unseparated cs) n) : Numeral cs n
  | binary {cs : List Char} {n : Nat} (h : Digits 2 (unseparated cs) n) : Numeral ('0' :: 'b' :: cs) n
  | octal {cs : List Char} {n : Nat} (h : Digits 8 (unseparated cs) n) : Numeral ('0' :: 'o' :: cs) n
  | hexadecimal {cs : List Char} {n : Nat} (h : Digits 16 (unseparated cs) n) : Numeral ('0' :: 'x' :: cs) n

/-- the integer that a text denotes in Rust: that of a literal of at most 128 bits, or its negation -/
inductive Denotes (text : String) : Int → Prop
  | plain {n : Nat} (h : Numeral text.toList n) (hn : n < 2 ^ 128) : Denotes text n
  | negative {cs : List Char} {n : Nat} (htext : text.toList = '-' :: cs) (h : Numeral cs n) (hn : n < 2 ^ 128) :
    Denotes text (-n)

/-- the mark of another radix is no decimal digit -/
theorem not_digits_of_mark {mark : Char} (hmark : digit? 10 mark = none) (hseparator : mark ≠ '_') :
    ¬ Digits 10 (unseparated ('0' :: mark :: cs)) n := by
  intro h
  refine h.not_mem (by decide) hmark (List.mem_filter.2 ⟨?_, decide_eq_true hseparator⟩)
  exact List.mem_cons_of_mem _ List.mem_cons_self

theorem Numeral.unique (h : Numeral cs n) (h' : Numeral cs m) : n = m := by
  cases h with
  | decimal _ h =>
    cases h' with
    | decimal _ h' => exact h.unique (by decide) h'
    | binary | octal | hexadecimal => exact absurd h (not_digits_of_mark (by decide) (by decide))
  | binary h =>
    cases h' with
    | decimal _ h' => exact absurd h' (not_digits_of_mark (by decide) (by decide))
    | binary h' => exact h.unique (by decide) h'
  | octal h =>
    cases h' with
    | decimal _ h' => exact absurd h' (not_digits_of_mark (by decide) (by decide))
    | octal h' => exact h.unique (by decide) h'
  | hexadecimal h =>
    cases h' with
    | decimal _ h' => exact absurd h' (not_digits_of_mark (by decide) (by decide))
    | hexadecimal h' => exact h.unique (by decide) h'

/-- a sign begins no literal -/
theorem Numeral.head_ne (h : Numeral cs n) : cs.head? ≠ some '-' := by
  cases h with
  | decimal _ h =>
    intro hhead
    refine h.not_mem (c := '-') (by decide) (by decide) (List.mem_filter.2 ⟨List.mem_of_mem_head? hhead, by decide⟩)
  | _ => simp

/-- **A text denotes one integer**, if it denotes any. -/
theorem Denotes.unique (h : Denotes text v) (h' : Denotes text w) : v = w := by
  cases h with
  | plain h =>
    cases h' with
    | plain h' => rw [h.unique h']
    | negative htext => exact absurd (htext ▸ rfl) h.head_ne
  | negative htext h =>
    cases h' with
    | plain h' => exact absurd (htext ▸ rfl) h'.head_ne
    | negative htext' h' =>
      rw [htext] at htext'
      cases htext'
      rw [h.unique h']

/-! ## Respelled literals -/

theorem unseparated_of_digits {radix : Nat} (hradix : radix ≤ 16) (h : Digits radix cs n) : unseparated cs = cs := by
  refine List.filter_eq_self.2 fun c hc => decide_eq_true ?_
  rintro rfl
  refine h.not_mem hradix ?_ hc
  simp [digit?]

theorem respell_of_head_ne (h : cs.head? ≠ some '0') : respell cs = cs := by
  unfold respell
  split
  · exact absurd rfl h
  · exact absurd rfl h
  · exact absurd rfl h
  · rfl

/-- digits behind the mark of their radix in the schema are the same digits behind Rust's mark of it -/
theorem numeral_respell (h : Magnitude cs n) : Numeral (respell cs) n := by
  cases h with
  | zero => exact .decimal (by decide) (.one (by decide))
  | decimal hfirst h =>
    rw [respell_of_head_ne hfirst]
    have hplain := unseparated_of_digits (by decide) h
    refine .decimal (fun hhead => ?_) (by rwa [hplain])
    rw [← hplain] at hhead
    exact absurd (List.mem_filter.1 (List.mem_of_mem_head? hhead)).2 (by decide)
  | @octal cs n h =>
    have hmarked : respell ('0' :: cs) = '0' :: 'o' :: cs := by
      obtain ⟨c, rest, rfl⟩ := List.exists_cons_of_ne_nil h.ne_nil
      unfold respell
      split
      · next heq =>
        cases heq
        exact absurd List.mem_cons_self (h.not_mem (c := 'x') (by decide) (by decide))
      · next heq =>
        cases heq
        exact absurd List.mem_cons_self (h.not_mem (c := 'X') (by decide) (by decide))
      · next heq =>
        cases heq
        rfl
      · next hother => exact absurd rfl (hother c rest)
    rw [hmarked]
    exact .octal (by rwa [unseparated_of_digits (by decide) h])
  | @hexadecimal mark cs n hmark h =>
    have hmarked : respell ('0' :: mark :: cs) = '0' :: 'x' :: cs := by
      rcases hmark with rfl | rfl <;> rfl
    rw [hmarked]
    exact .hexadecimal (by rwa [unseparated_of_digits (by decide) h])

/-- **A literal denotes in Rust what it spells in the schema.** -/
theorem denotes_literal (h : Spells text.toList v) : Denotes (literal text) v := by
  have hsmall : ∀ n : Nat, n ≤ 2 ^ 127 - 1 → n < 2 ^ 128 := fun n hn => by omega
  unfold literal
  generalize text.toList = cs at h
  cases h with
  | plain h hn =>
    split
    · exact absurd rfl h.head_ne
    · exact .plain (by rw [String.toList_ofList]; exact numeral_respell h) (hsmall _ hn)
  | negative h hn => exact .negative String.toList_ofList (numeral_respell h) (hsmall _ hn)

theorem denotes_literal_iff (h : read? text = some v) : Denotes (literal text) w ↔ w = v := by
  have hdenotes := denotes_literal (read?_eq_some_iff.1 h)
  constructor
  · exact fun hw => hw.unique hdenotes
  · rintro rfl
    exact hdenotes

example : literal "-0X1f" = "-0x1f" ∧ literal "0644" = "0o644" ∧ literal "0" = "0" := by
  decide

end Code

/-! ## What is worked out of a literal -/

open Code

namespace Table

variable {t : Table} {expr name text text' : String} {v : Int}

/-- what is worked out of an expression that leads to the integer `v` -/
structure Yields (t : Table) (expr : String) (v : Int) : Prop where
  bound : t.bound expr =
    if v = unlimited then .none else if 0 ≤ v ∧ v < unlimited then .limit v.toNat else .verbatim expr
  length : t.length expr = .count v
  tag : t.tagValue expr = .number (wrap32 v)
  label : ∀ enum, t.pattern (some enum) expr = .tagged enum v
  /-- a label that is under no enum is respelled itself -/
  plain : ∃ text, t.pattern none expr = .literal text ∧ ∀ w, Denotes (literal text) w ↔ w = v

/-- bounds, lengths, tags and labels are all worked out of one integer -/
theorem yields_of_integer (h : t.integer? expr = some v) : t.Yields expr v where
  bound := bound_of_integer h
  length := by rw [Table.length, h]
  tag := by rw [tagValue, h]
  label enum := by
    unfold pattern
    rw [h]
  plain := by
    refine ⟨t.resolve expr, ?_, fun w => denotes_literal_iff h⟩
    unfold pattern
    rw [h]

/-- a constant has one value -/
theorem Reachable.const_unique (ht : t.Reachable) (h : .const name text ∈ t.definitions)
    (h' : .const name text' ∈ t.definitions) : text = text' := by
  have hfound := (constant_iff ht).2 h
  exact Option.some.inj (hfound.symm.trans ((constant_iff ht).2 h'))

end Table

/-- **Literals keep their values.** A literal that is read with a value is respelled as an unsuffixed literal of Rust,
or the negation of one, that denotes this value and no other. In a reachable table, a constant that is defined by it is
generated, and with a text that denotes it; and the literal and the name of the constant yield bounds, lengths, tags and
labels of the same value. -/
theorem literals_keep_values {text : String} {v : Int} (h : Integer.read? text = some v) :
    (∀ w, Denotes (literal text) w ↔ w = v) ∧
    ∀ t : Table, t.Reachable → t.Yields text v ∧ ∀ name, .const name text ∈ t.definitions →
      (∃ type value, .const name type value ∈ t.emission.fragments) ∧
      (∀ type value, .const name type value ∈ t.emission.fragments → ∀ w, Denotes value.text w ↔ w = v) ∧
      t.Yields name v := by
  have hliteral : ∀ w, Denotes (literal text) w ↔ w = v := fun w => denotes_literal_iff h
  have hname : isName text = false := by
    rw [← Bool.not_eq_true]
    intro hname
    rw [read?_of_isName hname] at h
    cases h
  refine ⟨hliteral, fun t ht => ⟨Table.yields_of_integer ?_, fun name hd => ⟨?_, ?_, Table.yields_of_integer ?_⟩⟩⟩
  · rw [integer?_of_not_name ht hname, h]
  · exact ⟨_, _, (mem_emission_const_iff ht).2 ⟨text, hd, rfl, rfl⟩⟩
  · intro type value hf
    obtain ⟨text', hd', -, rfl⟩ := (mem_emission_const_iff ht).1 hf
    obtain rfl := ht.const_unique hd hd'
    have hvalue : Table.constValue text = .literal text := by rw [Table.constValue, h, Option.isSome_some, if_pos rfl]
    rw [hvalue]
    exact hliteral
  · rw [integer?_of_const ht hd hname, h]

theorem literals_keep_values_sample : Integer.read? "-0X1f" = some (-31) ∧ (∀ w, Denotes "-0x1f" w ↔ w = -31) ∧
    ∃ t, Table.empty.addSource (schemaText [.const "LEAST" "-0X1f"]) = (t, .ok 1) ∧ t.Reachable ∧
      t.length "LEAST" = .count (-31) ∧
      ∃ type value, .const "LEAST" type value ∈ t.emission.fragments ∧ ∀ w, Denotes value.text w ↔ w = -31 := by
  have hread : Integer.read? "-0X1f" = some (-31) := by decide
  have hspelled : literal "-0X1f" = "-0x1f" := by decide
  obtain ⟨hliteral, hall⟩ := literals_keep_values hread
  rw [hspelled] at hliteral
  have hg : ∀ d ∈ [Definition.const "LEAST" "-0X1f"], d.grammatical = true := by decide
  obtain ⟨t, hadd, ht, hds⟩ := exists_table_of_acceptable hg (by decide)
  have hd : .const "LEAST" "-0X1f" ∈ t.definitions := by
    rw [← Array.mem_toList_iff, hds]
    exact List.mem_cons_self
  obtain ⟨⟨type, value, hf⟩, hdenotes, hyields⟩ := (hall t ht).2 "LEAST" hd
  exact ⟨hread, hliteral, t, hadd, ht, hyields.length, type, value, hf, hdenotes type value hf⟩

end Xdr
