/-
Names made of names.

The name of an inline type is made of names with underscores: one that marks it, unless the first name begins with one,
and one between two parts.
- `underscored_eq_iff`: two marked names are equal exactly when they agree behind one underscore at most.
- `joined_eq_iff`: names joined by an underscore are equal part by part where the last parts hold no underscore.
- `eq_of_below`: a part without an underscore is settled by every name that goes on behind it with one.
- `nodup_flatMap_below`: so names that go on behind different parts are different.
-/
import Mathlib.Data.List.Nodup
import Mathlib.Data.List.TakeWhile
import Xdr.Schema.Naming

namespace Xdr

/-! ## The mark -/

/-- a name without the underscore that it begins with, if it does -/
def stem (name : String) : String :=
  match name.toList with
  | '_' :: r => String.ofList r
  | _ => name

theorem startsWith_underscore_iff {s : String} : s.startsWith "_" = true ↔ ∃ r, s.toList = '_' :: r := by
  rw [String.startsWith_string_iff]
  constructor
  · rintro ⟨r, hr⟩
    exact ⟨r, hr.symm⟩
  · rintro ⟨r, hr⟩
    exact ⟨r, hr.symm⟩

theorem underscored_eq (s : String) : underscored s = "_" ++ stem s := by
  unfold underscored stem
  split_ifs with h
  · obtain ⟨r, hr⟩ := startsWith_underscore_iff.1 h
    rw [hr]
    exact String.toList_inj.1 (by simp [hr])
  · split
    · next r hr => exact absurd (startsWith_underscore_iff.2 ⟨r, hr⟩) h
    · rfl

theorem toList_underscored (s : String) : (underscored s).toList = '_' :: (stem s).toList := by
  rw [underscored_eq, String.toList_append]
  rfl

/-- marked names are equal when they agree behind one underscore at most -/
theorem underscored_eq_iff {a b : String} : underscored a = underscored b ↔ stem a = stem b := by
  rw [← String.toList_inj, toList_underscored, toList_underscored, List.cons.injEq, String.toList_inj]
  simp

theorem underscored_of_startsWith {s : String} (h : s.startsWith "_" = true) : underscored s = s := if_pos h

/-- a name without an underscore gets one -/
theorem underscored_of_plain {s : String} (h : '_' ∉ s.toList) : underscored s = "_" ++ s := by
  refine if_neg fun hs => ?_
  obtain ⟨r, hr⟩ := startsWith_underscore_iff.1 hs
  simp [hr] at h

theorem startsWith_underscored (s : String) : (underscored s).startsWith "_" = true :=
  startsWith_underscore_iff.2 ⟨_, toList_underscored s⟩

theorem startsWith_append {a b : String} (h : a.startsWith "_" = true) : (a ++ b).startsWith "_" = true := by
  obtain ⟨r, hr⟩ := startsWith_underscore_iff.1 h
  exact startsWith_underscore_iff.2 ⟨r ++ b.toList, by simp [hr]⟩

theorem memberTypeName_eq (parent member : String) :
    memberTypeName parent member = "_" ++ stem parent ++ "_" ++ member := by
  rw [memberTypeName, underscored_eq]

theorem startsWith_memberTypeName (parent member : String) : (memberTypeName parent member).startsWith "_" = true :=
  startsWith_append (startsWith_append (startsWith_underscored parent))

/-! ## Parts -/

/-- a text is kept by what keeps its characters -/
theorem map_eq_self {f : Char → Char} {s : String} (h : ∀ c ∈ s.toList, f c = c) : s.map f = s := by
  rw [← String.toList_inj, String.toList_map]
  conv_rhs => rw [← List.map_id s.toList]
  exact List.map_congr_left h

/-- the last parts of joined names are what follows the last underscore -/
theorem joined_eq_iff {a b x y : String} (hx : '_' ∉ x.toList) (hy : '_' ∉ y.toList) :
    a ++ "_" ++ x = b ++ "_" ++ y ↔ a = b ∧ x = y := by
  constructor
  · intro h
    have hlists : a.toList ++ '_' :: x.toList = b.toList ++ '_' :: y.toList := by
      simpa using congrArg String.toList h
    have hends : ∀ {as bs xs ys : List Char}, '_' ∉ xs → as ++ '_' :: xs = bs ++ '_' :: ys →
        ∀ cs, bs = as ++ cs → cs = [] := by
      rintro as bs xs ys hxs heq cs rfl
      rw [List.append_assoc, List.append_cancel_left_eq] at heq
      cases cs with
      | nil => rfl
      | cons c cs =>
        obtain ⟨-, rfl⟩ := List.cons.inj heq
        simp at hxs
    have hab : a.toList = b.toList := by
      rcases List.append_eq_append_iff.1 hlists with ⟨cs, hcs, -⟩ | ⟨cs, hcs, -⟩
      · rw [hcs, hends hx hlists cs hcs, List.append_nil]
      · rw [hcs, hends hy hlists.symm cs hcs, List.append_nil]
    rw [hab, List.append_cancel_left_eq, List.cons.injEq] at hlists
    exact ⟨String.toList_inj.1 hab, String.toList_inj.1 hlists.2⟩
  · rintro ⟨rfl, rfl⟩
    rfl

/-- the name itself, or one that goes on behind it with an underscore -/
def Below (name x : String) : Prop := x = name ∨ ∃ r, x = name ++ "_" ++ r

theorem Below.append {name x : String} (h : Below name x) (r : String) : Below name (x ++ "_" ++ r) := by
  rcases h with rfl | ⟨r', rfl⟩
  · exact .inr ⟨r, rfl⟩
  · exact .inr ⟨r' ++ "_" ++ r, by simp only [String.append_assoc]⟩

theorem Below.ne_of_append {name r x : String} (h : Below (name ++ "_" ++ r) x) : x ≠ name := by
  intro heq
  have hmark : "_".length = 1 := rfl
  have hlength : name.length < x.length := by
    rcases h with rfl | ⟨r', rfl⟩ <;> simp only [String.length_append] <;> omega
  rw [heq] at hlength
  omega

/-- what stands before the first underscore behind `p` -/
theorem takeWhile_of_below {p a x : String} (ha : '_' ∉ a.toList) (h : Below (p ++ a) x) :
    (x.toList.drop p.toList.length).takeWhile (fun c => c ≠ '_') = a.toList := by
  have hall : ∀ c ∈ a.toList, decide (c ≠ '_') = true := by
    intro c hc
    rw [decide_eq_true_eq]
    rintro rfl
    exact ha hc
  rcases h with rfl | ⟨r, rfl⟩
  · simpa [List.takeWhile_eq_self_iff] using hall
  · have hdrop : (p ++ a ++ "_" ++ r).toList.drop p.toList.length = a.toList ++ '_' :: r.toList := by
      simp
    rw [hdrop, List.takeWhile_append_of_pos hall]
    simp

theorem eq_of_below {p a b x : String} (ha : '_' ∉ a.toList) (hb : '_' ∉ b.toList) (h : Below (p ++ a) x)
    (h' : Below (p ++ b) x) : a = b :=
  String.toList_inj.1 ((takeWhile_of_below ha h).symm.trans (takeWhile_of_below hb h'))

/-- names that go on behind different parts without an underscore are different -/
theorem nodup_flatMap_below {α : Type} {xs : List α} {part : α → String} {names : α → List String} (p : String)
    (hparts : (xs.map part).Nodup) (hplain : ∀ x ∈ xs, '_' ∉ (part x).toList) (hnodup : ∀ x ∈ xs, (names x).Nodup)
    (hbelow : ∀ x ∈ xs, ∀ n ∈ names x, Below (p ++ part x) n) : (xs.flatMap names).Nodup := by
  rw [List.nodup_flatMap]
  refine ⟨hnodup, ?_⟩
  rw [List.nodup_iff_pairwise_ne, List.pairwise_map] at hparts
  refine hparts.imp_of_mem fun {x y} hx hy hne => List.disjoint_left.2 fun n hn hn' => hne ?_
  exact eq_of_below (hplain x hx) (hplain y hy) (hbelow x hx n hn) (hbelow y hy n hn')

end Xdr
