/-
Ends of chains of names.

`Follows next` relates a name to its successor. A chain that comes to an end passes no name twice, so the names before
its end are different names of the table, and the steps that `chase` may take are enough.
- `not_transGen_self`: a chain that ends does not return.
- `reflTransGen_chaseFrom`: no other chain is followed, ending or not.
- `chaseFrom_eq_end`, `Indexed.chase_eq_end`: a chain that ends is followed to its end.
-/
import Mathlib.Data.List.Perm.Subperm
import Mathlib.Logic.Relation
import Xdr.Proofs.Table.Reachable
import Xdr.Resolve

namespace Xdr

/-- `y` comes next after `x` -/
def Follows (next : String → Option String) (x y : String) : Prop := next x = some y

variable {next : String → Option String} {x y e : String}

theorem not_transGen_self (h : Relation.ReflTransGen (Follows next) x e) (hend : next e = none) :
    ¬ Relation.TransGen (Follows next) x x := by
  induction h using Relation.ReflTransGen.head_induction_on with
  | refl =>
    intro hcycle
    obtain ⟨y, hy, -⟩ := Relation.TransGen.head'_iff.1 hcycle
    rw [Follows, hend] at hy
    cases hy
  | head hxy _ ih =>
    intro hcycle
    obtain ⟨y, hy, hback⟩ := Relation.TransGen.head'_iff.1 hcycle
    obtain rfl := Option.some.inj (hy.symm.trans hxy)
    exact ih (.tail' hback hxy)

/-- what is followed is part of the chain, whether it ends or not -/
theorem reflTransGen_chaseFrom (fuel : Nat) (seen : List String) (x : String) :
    Relation.ReflTransGen (Follows next) x (chaseFrom next fuel seen x) := by
  induction fuel generalizing seen x with
  | zero => exact .refl
  | succ fuel ih =>
    rw [chaseFrom]
    split_ifs
    · exact .refl
    · cases hxy : next x with
      | none => exact .refl
      | some y => exact .head hxy (ih _ y)

/-- a chain that ends is followed to its end, if there are as many steps as names that are left -/
theorem chaseFrom_eq_end (names : List String) (hnames : ∀ x y, Follows next x y → x ∈ names) {fuel : Nat}
    {seen : List String} (hseen : seen.Nodup) (hsub : seen ⊆ names) (hfuel : names.length < fuel + seen.length)
    (hfree : ∀ y, Relation.ReflTransGen (Follows next) x y → y ∉ seen)
    (h : Relation.ReflTransGen (Follows next) x e) (hend : next e = none) : chaseFrom next fuel seen x = e := by
  induction fuel generalizing seen x with
  | zero =>
    have hlength := (List.subperm_of_subset hseen hsub).length_le
    omega
  | succ fuel ih =>
    rw [chaseFrom, if_neg (hfree x .refl)]
    rcases h.cases_head with rfl | ⟨y, hxy, hye⟩
    · rw [hend]
    · rw [show next x = some y from hxy]
      refine ih (List.nodup_cons.2 ⟨hfree x .refl, hseen⟩) ?_ ?_ (fun z hz => ?_) hye
      · exact List.cons_subset.2 ⟨hnames x y hxy, hsub⟩
      · rw [List.length_cons]
        omega
      · rw [List.mem_cons, not_or]
        refine ⟨?_, hfree z (.head hxy hz)⟩
        rintro rfl
        exact not_transGen_self h hend (.head' hxy hz)

namespace Table

/-- **A chain in a table that ends is followed to its end.** -/
theorem Indexed.chase_eq_end {t : Table} (ht : t.Indexed) {next : Definition → Option String}
    (h : Relation.ReflTransGen (Follows fun x => (t.get? x).bind next) x e)
    (hend : (t.get? e).bind next = none) : t.chase next x = e := by
  apply chaseFrom_eq_end (t.definitions.toList.map Definition.id)
  · intro x y hxy
    obtain ⟨d, hd, -⟩ := Option.bind_eq_some_iff.1 hxy
    obtain ⟨hmem, rfl⟩ := ht.get?_eq_some_iff.1 hd
    exact List.mem_map_of_mem (Array.mem_toList_iff.2 hmem)
  · exact List.nodup_nil
  · exact List.nil_subset _
  · simp
  · exact fun _ _ => List.not_mem_nil
  · exact h
  · exact hend

end Table

end Xdr
