/-
What an integer literal is, and its value.

`Digits radix cs n` says that `cs` is a run of digits and `n` the number that it writes: one digit is its own value, and
a digit behind others adds to what these are worth one place further up. `Spells cs v` is the grammar of literals over
such runs. The reader goes another way, from the front and with a number for what it has passed.
- `digit?_eq_some_iff`: which characters are digits.
- `natural?_eq_some_iff`: the reader finds the number of a run of digits, and refuses what is none.
- `magnitude?_eq_some_iff`: the same for digits behind the mark of their radix.
- `reads_literals_exactly`: the literals that are read, with their values.
- `read?_toString`: the decimal text of a number is one of them.
-/
import Mathlib.Data.List.Induction
import Mathlib.Tactic.IntervalCases
import Mathlib.Tactic.SplitIfs
import Xdr.Integer

namespace Xdr.Integer

variable {radix n d v : Nat} {c : Char} {cs ds : List Char}

/-! ## Digits -/

/-- the digits in the order of their values, with small letters from ten on -/
def smallDigits : List Char :=
  ['0', '1', '2', '3', '4', '5', '6', '7', '8', '9', 'a', 'b', 'c', 'd', 'e', 'f']

/-- the same with capitals -/
def largeDigits : List Char :=
  ['0', '1', '2', '3', '4', '5', '6', '7', '8', '9', 'A', 'B', 'C', 'D', 'E', 'F']

/-- the character is the digit `d` of the radix -/
def IsDigit (radix : Nat) (c : Char) (d : Nat) : Prop :=
  d < radix ∧ (smallDigits[d]? = some c ∨ largeDigits[d]? = some c)

instance (radix : Nat) (c : Char) (d : Nat) : Decidable (IsDigit radix c d) := inferInstanceAs (Decidable (_ ∧ _))

/-- one digit or more, and the number that they write -/
inductive Digits (radix : Nat) : List Char → Nat → Prop
  | one {c : Char} {d : Nat} (hc : IsDigit radix c d) : Digits radix [c] d
  | more {cs : List Char} {n : Nat} {c : Char} {d : Nat} (hcs : Digits radix cs n) (hc : IsDigit radix c d) :
    Digits radix (cs ++ [c]) (n * radix + d)

theorem Digits.ne_nil (h : Digits radix cs n) : cs ≠ [] := by
  cases h <;> simp

/-- a character of a range is one of those that are counted off from its first one -/
theorem eq_ofNat_of_range {first last : Char} (h : first ≤ c ∧ c ≤ last) :
    c = Char.ofNat (first.toNat + (c.toNat - first.toNat)) ∧ c.toNat - first.toNat ≤ last.toNat - first.toNat := by
  have hfirst : first.toNat ≤ c.toNat := UInt32.le_iff_toNat_le.1 h.1
  have hlast : c.toNat ≤ last.toNat := UInt32.le_iff_toNat_le.1 h.2
  constructor
  · rw [Nat.add_sub_cancel' hfirst, Char.ofNat_toNat]
  · exact Nat.sub_le_sub_right hlast _

/-- up to sixteen, the digits of a radix are those that stand at their values in the list -/
theorem digit?_eq_some_iff (hradix : radix ≤ 16) : digit? radix c = some d ↔ IsDigit radix c d := by
  constructor
  · intro h
    obtain ⟨hvalue, hd⟩ := Option.filter_eq_some_iff.1 h
    have hlt : d < radix := of_decide_eq_true hd
    refine ⟨hlt, ?_⟩
    split_ifs at hvalue with hdigit hsmall hlarge
    · obtain ⟨hc, hrange⟩ := eq_ofNat_of_range hdigit
      cases hvalue
      generalize c.toNat - '0'.toNat = k at hc hrange
      change k ≤ 9 at hrange
      subst hc
      interval_cases k <;> decide
    · obtain ⟨hc, -⟩ := eq_ofNat_of_range hsmall
      cases hvalue
      generalize c.toNat - 'a'.toNat = k at hc hlt ⊢
      have hk : k < 6 := by omega
      subst hc
      interval_cases k <;> decide
    · obtain ⟨hc, -⟩ := eq_ofNat_of_range hlarge
      cases hvalue
      generalize c.toNat - 'A'.toNat = k at hc hlt ⊢
      have hk : k < 6 := by omega
      subst hc
      interval_cases k <;> decide
  · rintro ⟨hlt, hc⟩
    have hd : d < 16 := by omega
    unfold digit?
    rw [Option.filter_eq_some_iff]
    refine ⟨?_, decide_eq_true hlt⟩
    interval_cases d <;> rcases hc with hc | hc <;> cases hc <;> decide

/-! ## Runs of digits -/

/-- what is read of a run goes on with the number of its first part -/
theorem digits?_append (cs ds : List Char) (n : Nat) :
    digits? radix n (cs ++ ds) = (digits? radix n cs).bind fun m => digits? radix m ds := by
  induction cs generalizing n with
  | nil => rfl
  | cons c cs ih =>
    rw [List.cons_append, digits?, digits?, Option.bind_assoc]
    exact Option.bind_congr fun d _ => ih _

theorem digits?_concat (cs : List Char) (c : Char) (n : Nat) :
    digits? radix n (cs ++ [c]) = (digits? radix n cs).bind fun m => (digit? radix c).map fun d => m * radix + d := by
  rw [digits?_append]
  refine Option.bind_congr fun m _ => ?_
  rw [digits?, Option.map_eq_bind]
  rfl

/-- **The reader finds the number that the digits write**, and refuses what is no run of digits. -/
theorem natural?_eq_some_iff (hradix : radix ≤ 16) : natural? radix cs = some n ↔ Digits radix cs n := by
  constructor
  · intro h
    induction cs using List.reverseRecOn generalizing n with
    | nil => cases h
    | append_singleton cs c ih =>
      have hread : digits? radix 0 (cs ++ [c]) = some n := by cases cs <;> exact h
      rw [digits?_concat] at hread
      obtain ⟨m, hm, hread⟩ := Option.bind_eq_some_iff.1 hread
      obtain ⟨d, hd, rfl⟩ := Option.map_eq_some_iff.1 hread
      have hc := (digit?_eq_some_iff hradix).1 hd
      cases cs with
      | nil =>
        cases hm
        rw [Nat.zero_mul, Nat.zero_add]
        exact .one hc
      | cons c' cs => exact .more (ih hm) hc
  · intro h
    have hread : digits? radix 0 cs = some n := by
      induction h with
      | one hc => rw [digits?, (digit?_eq_some_iff hradix).2 hc, Option.bind_some, digits?, Nat.zero_mul, Nat.zero_add]
      | more _ hc ih => rw [digits?_concat, ih, Option.bind_some, (digit?_eq_some_iff hradix).2 hc, Option.map_some]
    obtain ⟨c, cs, rfl⟩ := List.exists_cons_of_ne_nil h.ne_nil
    exact hread

/-- a run of digits writes one number -/
theorem Digits.unique (hradix : radix ≤ 16) (h : Digits radix cs n) {m : Nat} (h' : Digits radix cs m) : n = m := by
  rw [← natural?_eq_some_iff hradix] at h h'
  exact Option.some.inj (h.symm.trans h')

theorem Digits.isDigit_of_mem (h : Digits radix cs n) (hc : c ∈ cs) : ∃ d, IsDigit radix c d := by
  induction h with
  | one h =>
    rw [List.mem_singleton.1 hc]
    exact ⟨_, h⟩
  | more _ h ih =>
    rcases List.mem_append.1 hc with hc | hc
    · exact ih hc
    · rw [List.mem_singleton.1 hc]
      exact ⟨_, h⟩

/-- what is no digit of a radix up to sixteen does not occur -/
theorem Digits.not_mem (hradix : radix ≤ 16) (h : Digits radix cs n) (hc : digit? radix c = none) : c ∉ cs := by
  intro hmem
  obtain ⟨d, hd⟩ := h.isDigit_of_mem hmem
  rw [(digit?_eq_some_iff hradix).2 hd] at hc
  cases hc

/-! ## Literals -/

/-- a literal without a sign: decimal, with no zero in front; octal behind a zero; hexadecimal behind `0x` or `0X` -/
inductive Magnitude : List Char → Nat → Prop
  | zero : Magnitude ['0'] 0
  | decimal {cs : List Char} {n : Nat} (hfirst : cs.head? ≠ some '0') (h : Digits 10 cs n) : Magnitude cs n
  | octal {cs : List Char} {n : Nat} (h : Digits 8 cs n) : Magnitude ('0' :: cs) n
  | hexadecimal {mark : Char} {cs : List Char} {n : Nat} (hmark : mark = 'x' ∨ mark = 'X') (h : Digits 16 cs n) :
    Magnitude ('0' :: mark :: cs) n

/-- an integer literal with its value: a magnitude of 127 bits, behind a minus sign or not -/
inductive Spells : List Char → Int → Prop
  | plain {cs : List Char} {n : Nat} (h : Magnitude cs n) (hn : n ≤ 2 ^ 127 - 1) : Spells cs n
  | negative {cs : List Char} {n : Nat} (h : Magnitude cs n) (hn : n ≤ 2 ^ 127 - 1) : Spells ('-' :: cs) (-n)

theorem maxMagnitude_eq : maxMagnitude = 2 ^ 127 - 1 := by
  decide

/-- no literal without a sign begins with one -/
theorem Magnitude.head_ne (h : Magnitude cs n) : cs.head? ≠ some '-' := by
  cases h with
  | decimal _ h =>
    intro hhead
    exact h.not_mem (by decide) (by decide) (List.mem_of_mem_head? hhead)
  | _ => simp

/-- the reader tells the forms of literals apart by their first two characters -/
theorem magnitude?_eq_some_iff : magnitude? cs = some n ↔ Magnitude cs n ∧ n ≤ maxMagnitude := by
  unfold magnitude?
  rw [Option.filter_eq_some_iff, decide_eq_true_iff]
  refine and_congr_left fun _ => ?_
  constructor
  · intro h
    split at h
    · exact .hexadecimal (.inl rfl) ((natural?_eq_some_iff (by decide)).1 h)
    · exact .hexadecimal (.inr rfl) ((natural?_eq_some_iff (by decide)).1 h)
    · exact .octal ((natural?_eq_some_iff (by decide)).1 h)
    · next hhex hHex hoct =>
      by_cases hfirst : cs.head? = some '0'
      · obtain ⟨rest, rfl⟩ := List.head?_eq_some_iff.1 hfirst
        cases rest with
        | nil =>
          cases h
          exact .zero
        | cons c rest => exact absurd rfl (hoct c rest)
      · exact .decimal hfirst ((natural?_eq_some_iff (by decide)).1 h)
  · intro h
    cases h with
    | zero => rfl
    | decimal hfirst h =>
      have hread := (natural?_eq_some_iff (by decide)).2 h
      split
      · exact absurd rfl hfirst
      · exact absurd rfl hfirst
      · exact absurd rfl hfirst
      · exact hread
    | octal h =>
      have hread := (natural?_eq_some_iff (by decide)).2 h
      obtain ⟨c, rest, rfl⟩ := List.exists_cons_of_ne_nil h.ne_nil
      -- the marks of hexadecimal are no octal digits
      split
      · next heq =>
        cases heq
        exact absurd List.mem_cons_self (h.not_mem (c := 'x') (by decide) (by decide))
      · next heq =>
        cases heq
        exact absurd List.mem_cons_self (h.not_mem (c := 'X') (by decide) (by decide))
      · next heq =>
        cases heq
        exact hread
      · next hoct => exact absurd rfl (hoct c rest)
    | hexadecimal hmark h =>
      have hread := (natural?_eq_some_iff (by decide)).2 h
      rcases hmark with rfl | rfl <;> exact hread

theorem ofChars?_minus (cs : List Char) : ofChars? ('-' :: cs) = (magnitude? cs).map fun n : Nat => -(n : Int) := by
  rw [ofChars?]
  cases magnitude? cs <;> rfl

theorem ofChars?_of_head_ne (h : cs.head? ≠ some '-') : ofChars? cs = (magnitude? cs).map fun n : Nat => (n : Int) := by
  unfold ofChars?
  split
  · exact absurd rfl h
  · cases magnitude? cs <;> rfl

/-- the literals that are read are those of the grammar, with the values that they write -/
theorem read?_eq_some_iff {text : String} {v : Int} : read? text = some v ↔ Spells text.toList v := by
  unfold read?
  generalize text.toList = cs
  constructor
  · intro h
    by_cases hsign : cs.head? = some '-'
    · obtain ⟨digits, rfl⟩ := List.head?_eq_some_iff.1 hsign
      rw [ofChars?_minus] at h
      obtain ⟨n, hn, rfl⟩ := Option.map_eq_some_iff.1 h
      obtain ⟨hmagnitude, hmax⟩ := magnitude?_eq_some_iff.1 hn
      exact .negative hmagnitude hmax
    · rw [ofChars?_of_head_ne hsign] at h
      obtain ⟨n, hn, rfl⟩ := Option.map_eq_some_iff.1 h
      obtain ⟨hmagnitude, hmax⟩ := magnitude?_eq_some_iff.1 hn
      exact .plain hmagnitude hmax
  · intro h
    cases h with
    | plain h hn =>
      rw [ofChars?_of_head_ne h.head_ne, magnitude?_eq_some_iff.2 ⟨h, maxMagnitude_eq ▸ hn⟩]
      rfl
    | negative h hn =>
      rw [ofChars?_minus, magnitude?_eq_some_iff.2 ⟨h, maxMagnitude_eq ▸ hn⟩]
      rfl

/-- a magnitude and its negation are signed numbers of 128 bits, and the least of these is neither -/
theorem Spells.bounded {v : Int} (h : Spells cs v) : -(2 ^ 127 - 1) ≤ v ∧ v ≤ 2 ^ 127 - 1 := by
  cases h <;> omega

/-- **The integer literals are exactly those of the grammar.** A text is read with a value if and only if it spells that
value: a minus sign or none, and then `0x` or `0X` and hexadecimal digits, `0` and octal digits, `0` alone, or decimal
digits that begin with no zero, of a magnitude up to `2 ^ 127 - 1`. Every other text is refused. No value is lost: what
is read, and its negation, are signed numbers of 128 bits. -/
theorem reads_literals_exactly (text : String) :
    (∀ v, read? text = some v ↔ Spells text.toList v) ∧ (read? text = none ↔ ∀ v, ¬ Spells text.toList v) ∧
      ∀ v, read? text = some v → -(2 ^ 127 - 1) ≤ v ∧ v ≤ 2 ^ 127 - 1 := by
  refine ⟨fun v => read?_eq_some_iff, ?_, fun v hv => (read?_eq_some_iff.1 hv).bounded⟩
  rw [Option.eq_none_iff_forall_ne_some]
  exact forall_congr' fun v => not_congr read?_eq_some_iff

/-- the least signed number of 128 bits is refused, though it would fit -/
example : read? "-0x80000000000000000000000000000000" = none ∧
    read? "-0x7fffffffffffffffffffffffffffffff" = some (-(2 ^ 127 - 1)) := by
  decide

/-! ## Decimal text -/

theorem isDigit_digitChar (hd : d < 10) : IsDigit 10 d.digitChar d := by
  interval_cases d <;> decide

/-- the decimal text of a number is made of digits that write the number -/
theorem digits_toDigits (n : Nat) : Digits 10 (Nat.toDigits 10 n) n := by
  induction n using Nat.strongRecOn with
  | _ n ih =>
    by_cases hn : n < 10
    · rw [Nat.toDigits_of_lt_base hn]
      exact .one (isDigit_digitChar hn)
    · have hmore := Digits.more (ih (n / 10) (by omega)) (isDigit_digitChar (Nat.mod_lt n (by decide)))
      rw [Nat.toDigits_of_base_le (by decide) (Nat.not_lt.1 hn)]
      rwa [Nat.div_add_mod'] at hmore

/-- it begins with no zero, but for the number itself -/
theorem head?_toDigits (hn : 0 < n) : (Nat.toDigits 10 n).head? ≠ some '0' := by
  induction n using Nat.strongRecOn with
  | _ n ih =>
    by_cases hlt : n < 10
    · rw [Nat.toDigits_of_lt_base hlt]
      interval_cases n <;> decide
    · have hfront := ih (n / 10) (by omega) (by omega)
      obtain ⟨c, r, hcr⟩ := List.exists_cons_of_ne_nil (Nat.toDigits_ne_nil : Nat.toDigits 10 (n / 10) ≠ [])
      rw [Nat.toDigits_of_base_le (by decide) (Nat.not_lt.1 hlt), hcr]
      rwa [hcr] at hfront

/-- **The decimal text of a number is read back.** -/
theorem read?_toString (hn : n ≤ maxMagnitude) : read? (toString n) = some (n : Int) := by
  rw [maxMagnitude_eq] at hn
  rw [read?_eq_some_iff, Nat.toString_eq_repr, Nat.repr_eq_ofList_toDigits, String.toList_ofList]
  refine .plain ?_ hn
  rcases Nat.eq_zero_or_pos n with rfl | hpos
  · exact .zero
  · exact .decimal (head?_toDigits hpos) (digits_toDigits n)

end Xdr.Integer
