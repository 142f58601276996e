/-
Names with a number in them.

A series numbers its names: each is a decimal number between two parts that hold no digit. So the digits of a name are
those of its number, and what is left are the letters of the series.
- `Series.isName_name`: every one of them is a name, as no reserved word holds a digit.
- `Series.eq_of_name_eq`: the letters and the number of a name are found in it.
- `nodup_names`: names of series with different letters are different, however many of each are taken.
-/
import Mathlib.Data.List.Nodup
import Std.Data.String.ToNat
import Xdr.Proofs.Token.Spelling

namespace Xdr

/-! ## Numbers in decimal -/

theorem isDigit_of_mem_toString {n : Nat} {c : Char} (h : c ∈ (toString n).toList) : c.isDigit = true := by
  rw [Nat.toString_eq_repr, Nat.toList_repr] at h
  exact Nat.isDigit_of_mem_toDigits (by decide) (by decide) h

theorem isNumber_toString (n : Nat) : isNumber (toString n) = true := by
  have hdigits : ∀ c ∈ (toString n).toList, c.isDigit = true := fun c => isDigit_of_mem_toString
  unfold isNumber
  cases htext : (toString n).toList with
  | nil =>
    rw [Nat.toString_eq_repr, Nat.toList_repr] at htext
    exact absurd htext Nat.toDigits_ne_nil
  | cons c r =>
    rw [htext, List.forall_mem_cons] at hdigits
    simpa [hdigits.1] using fun d hd => isWordChar_of_isDigit (hdigits.2 d hd)

/-! ## Series of names -/

/-- names that differ in a number only -/
structure Series where
  before : String
  behind : String := ""
  /-- the number of the first name -/
  first : Nat := 0
  word : isWord before = true := by decide
  plain : (before.toList ++ behind.toList).all (fun c => isWordChar c && !c.isDigit) = true := by decide

/-- the characters of a name without those of its number -/
def letters (name : String) : List Char := name.toList.filter fun c => !c.isDigit

namespace Series

variable {s s' : Series} {i j : Nat}

def name (s : Series) (i : Nat) : String := s.before ++ toString (s.first + i) ++ s.behind

/-- what stands around the number -/
def parts (s : Series) : List Char := s.before.toList ++ s.behind.toList

/-! ## Parts of a name -/

theorem of_mem_parts (s : Series) {c : Char} (h : c ∈ s.parts) : isWordChar c = true ∧ c.isDigit = false := by
  simpa using List.all_eq_true.1 s.plain c h

theorem name_of_bare (h : s.behind = "") (i : Nat) : s.name i = s.before ++ toString (s.first + i) := by
  rw [name, h, String.append_empty]

theorem toList_name (s : Series) (i : Nat) :
    (s.name i).toList = s.before.toList ++ (toString (s.first + i)).toList ++ s.behind.toList := by
  rw [name, String.toList_append, String.toList_append]

/-- the parts around the number have no digits, and the number has nothing else -/
theorem filter_isDigit_name (s : Series) (i : Nat) :
    (s.name i).toList.filter Char.isDigit = (toString (s.first + i)).toList := by
  have hparts : s.parts.filter Char.isDigit = [] :=
    List.filter_eq_nil_iff.2 fun c hc => by simp [(s.of_mem_parts hc).2]
  rw [parts, List.filter_append, List.append_eq_nil_iff] at hparts
  obtain ⟨hbefore, hbehind⟩ := hparts
  have hnumber : (toString (s.first + i)).toList.filter Char.isDigit = (toString (s.first + i)).toList :=
    List.filter_eq_self.2 fun c => isDigit_of_mem_toString
  rw [toList_name, List.filter_append, List.filter_append, hbefore, hbehind, hnumber, List.nil_append,
    List.append_nil]

theorem letters_name (s : Series) (i : Nat) : letters (s.name i) = s.parts := by
  have hparts : s.parts.filter (fun c => !c.isDigit) = s.parts :=
    List.filter_eq_self.2 fun c hc => by simp [(s.of_mem_parts hc).2]
  have hnumber : (toString (s.first + i)).toList.filter (fun c => !c.isDigit) = [] :=
    List.filter_eq_nil_iff.2 fun c hc => by simp [isDigit_of_mem_toString hc]
  rw [letters, toList_name, List.filter_append, List.filter_append, hnumber, List.append_nil, ← List.filter_append]
  exact hparts

/-- the letters and the number of a name are found in it -/
theorem eq_of_name_eq (h : s.name i = s'.name j) : s.parts = s'.parts ∧ s.first + i = s'.first + j := by
  have hparts := congrArg letters h
  have hdigits := congrArg (fun name => name.toList.filter Char.isDigit) h
  rw [letters_name, letters_name] at hparts
  simp only [filter_isDigit_name, String.toList_inj, Nat.toString_eq_repr] at hdigits
  exact ⟨hparts, Nat.repr_injective hdigits⟩

/-! ## Names of the schema -/

theorem all_isWordChar_name (s : Series) (i : Nat) : (s.name i).toList.all isWordChar = true := by
  refine List.all_eq_true.2 fun c hc => ?_
  rw [toList_name, List.mem_append, List.mem_append] at hc
  rcases hc with (hc | hc) | hc
  · exact (s.of_mem_parts (List.mem_append_left _ hc)).1
  · exact isWordChar_of_isDigit (isDigit_of_mem_toString hc)
  · exact (s.of_mem_parts (List.mem_append_right _ hc)).1

theorem isWord_name (s : Series) (i : Nat) : isWord (s.name i) = true := by
  have hword := s.word
  have hall := s.all_isWordChar_name i
  unfold isWord at hword ⊢
  rw [toList_name] at hall ⊢
  cases hbefore : s.before.toList with
  | nil =>
    rw [hbefore] at hword
    cases hword
  | cons c r =>
    rw [hbefore] at hword hall
    simp only [List.cons_append, List.all_cons, Bool.and_eq_true] at hall ⊢
    exact ⟨(Bool.and_eq_true_iff.1 hword).1, hall.2⟩

/-- no reserved word holds a digit -/
theorem isReserved_name (s : Series) (i : Nat) : isReserved (s.name i) = false := by
  have hreserved : ∀ w ∈ reservedWords, w.toList.filter Char.isDigit = [] := by decide
  refine Bool.eq_false_iff.2 fun h => ?_
  have hnone := hreserved _ (List.contains_iff_mem.1 h)
  rw [filter_isDigit_name, Nat.toString_eq_repr, Nat.toList_repr] at hnone
  exact Nat.toDigits_ne_nil hnone

/-- **A numbered name is a name.** -/
theorem isName_name (s : Series) (i : Nat) : isName (s.name i) = true := by
  rw [isName, s.isWord_name, s.isReserved_name]
  rfl

theorem nodup_map_name {ss : List Series} (hdistinct : (ss.map Series.parts).Nodup) (i : Nat) :
    (ss.map fun s => s.name i).Nodup := by
  have hletters : (ss.map fun s => s.name i).map letters = ss.map Series.parts := by
    rw [List.map_map]
    exact List.map_congr_left fun s _ => s.letters_name i
  exact .of_map letters (hletters ▸ hdistinct)

end Series

/-- **Names of different series are different, and so are those of one.** Names are taken number by number, one of each
series. -/
theorem nodup_names {ss : List Series} (hdistinct : (ss.map Series.parts).Nodup) (n : Nat) :
    ((List.range n).flatMap fun i => ss.map fun s => s.name i).Nodup := by
  rw [List.nodup_flatMap]
  constructor
  · exact fun i _ => Series.nodup_map_name hdistinct i
  · refine List.nodup_range.imp fun {i j} hne => List.disjoint_left.2 fun x hi hj => hne ?_
    obtain ⟨s, hs, rfl⟩ := List.mem_map.1 hi
    obtain ⟨s', hs', hname⟩ := List.mem_map.1 hj
    obtain ⟨hparts, hnumber⟩ := Series.eq_of_name_eq hname
    obtain rfl := List.inj_on_of_nodup_map hdistinct hs' hs hparts
    exact (Nat.add_left_cancel hnumber).symm

end Xdr
