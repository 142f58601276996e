/-
Chains of names that may run in circles.

`Walks` is the loop along a chain without a bound on its steps: it goes on while a name has a successor and was not
passed before. A chain that never ends comes into a circle; what lies before the circle is approached once.
- `walks_chaseFrom`: the loop comes to an end, and a bound that is no smaller than the number of names does not matter.
- `walks_of_approaches`: of the names on a circle it ends at the first that the chain comes to.
- `settles_chase`: what `chase` finds, in any table.
- `Table.chains_settle`: all of it for constants, for types that are mere aliases, and for the enums behind typedefs.
-/
import Xdr.Proofs.Table.Chase

namespace Xdr

/-! ## The loop -/

/-- from `x`, with the names `seen` behind it, the loop ends at `y` -/
inductive Walks (next : String → Option String) : List String → String → String → Prop
  | passed {seen : List String} {x : String} (hseen : x ∈ seen) : Walks next seen x x
  | ended {seen : List String} {x : String} (hseen : x ∉ seen) (hend : next x = none) : Walks next seen x x
  | step {seen : List String} {x y z : String} (hseen : x ∉ seen) (hxy : Follows next x y)
    (h : Walks next (x :: seen) y z) : Walks next seen x z

/-- the chain comes back to `x` -/
def OnCircle (next : String → Option String) (x : String) : Prop := Relation.TransGen (Follows next) x x

/-- a step of a chain that is in no circle yet -/
def Approaches (next : String → Option String) (x y : String) : Prop := Follows next x y ∧ ¬ OnCircle next x

/-- where chains have an end, or begin to repeat -/
def Stops (next : String → Option String) (x : String) : Prop := next x = none ∨ OnCircle next x

variable {next : String → Option String} {seen : List String} {x y z e c : String}

/-- the loop ends in one place at most -/
theorem Walks.unique (h : Walks next seen x y) (h' : Walks next seen x z) : y = z := by
  induction h with
  | passed hseen =>
    cases h' with
    | passed | ended => rfl
    | step hfree => exact absurd hseen hfree
  | ended hfree hend =>
    cases h' with
    | passed | ended => rfl
    | step _ hxy => cases hend.symm.trans hxy
  | step hfree hxy _ ih =>
    cases h' with
    | passed hseen => exact absurd hseen hfree
    | ended _ hend => cases hend.symm.trans hxy
    | step _ hxy' h' =>
      obtain rfl := Option.some.inj (hxy.symm.trans hxy')
      exact ih h'

theorem Walks.reaches (h : Walks next seen x y) : Relation.ReflTransGen (Follows next) x y := by
  induction h with
  | passed | ended => exact .refl
  | step _ hxy _ ih => exact .head hxy ih

/-- it ends where the chain does, or where the chain was before; `seen` is what lies behind -/
theorem Walks.stops (h : Walks next seen x y) (hbehind : ∀ s ∈ seen, Relation.TransGen (Follows next) s x) :
    Stops next y := by
  induction h with
  | passed hseen => exact .inr (hbehind _ hseen)
  | ended _ hend => exact .inl hend
  | step _ hxy _ ih =>
    apply ih
    rw [List.forall_mem_cons]
    exact ⟨.single hxy, fun s hs => (hbehind s hs).tail hxy⟩

/-- **The loop ends.** All names but the first are successors of names, so no more steps are made than there are
successors. -/
theorem walks_chaseFrom (first : String) (names : List String) (hnames : ∀ x y, Follows next x y → y ∈ names)
    {fuel : Nat} (hseen : seen.Nodup) (hsub : x :: seen ⊆ first :: names) (hfuel : names.length < fuel + seen.length) :
    Walks next seen x (chaseFrom next fuel seen x) := by
  induction fuel generalizing seen x with
  | zero =>
    have hperm : seen.Perm (first :: names) := by
      refine (List.subperm_of_subset hseen (List.cons_subset.1 hsub).2).perm_of_length_le ?_
      rw [List.length_cons]
      omega
    exact .passed (hperm.mem_iff.2 (List.cons_subset.1 hsub).1)
  | succ fuel ih =>
    rw [chaseFrom]
    split_ifs with hx
    · exact .passed hx
    · cases hxy : next x with
      | none => exact .ended hx hxy
      | some y =>
        refine .step hx hxy (ih (List.nodup_cons.2 ⟨hx, hseen⟩) ?_ ?_)
        · exact List.cons_subset.2 ⟨List.mem_cons_of_mem _ (hnames x y hxy), hsub⟩
        · rw [List.length_cons]
          omega

/-! ## Circles -/

/-- the chain as it ends when it comes to `c` -/
def cutAt (next : String → Option String) (c x : String) : Option String := if x = c then none else next x

theorem follows_cutAt_iff : Follows (cutAt next c) x y ↔ Follows next x y ∧ x ≠ c := by
  unfold Follows cutAt
  by_cases hx : x = c <;> simp [hx]

/-- a chain that comes to `c` ends there when it is cut -/
theorem reflTransGen_cutAt (h : Relation.ReflTransGen (Follows next) x c) :
    Relation.ReflTransGen (Follows (cutAt next c)) x c := by
  induction h using Relation.ReflTransGen.head_induction_on with
  | refl => exact .refl
  | @head a b hab _ ih =>
    by_cases ha : a = c
    · rw [ha]
    · exact .head (follows_cutAt_iff.2 ⟨hab, ha⟩) ih

/-- a loop that has passed `c`, and nothing else of the way back to it, ends at `c` -/
theorem walks_back (h : Relation.ReflTransGen (Follows (cutAt next c)) x c) (hc : c ∈ seen)
    (hfree : ∀ y, Relation.ReflTransGen (Follows (cutAt next c)) x y → y ≠ c → y ∉ seen) : Walks next seen x c := by
  have hend : cutAt next c c = none := if_pos rfl
  induction h using Relation.ReflTransGen.head_induction_on generalizing seen with
  | refl => exact .passed hc
  | @head a b hab hbc ih =>
    obtain ⟨hfollows, ha⟩ := follows_cutAt_iff.1 hab
    refine .step (hfree a .refl ha) hfollows (ih (List.mem_cons_of_mem a hc) fun y hby hy => ?_)
    rw [List.mem_cons, not_or]
    refine ⟨?_, hfree y (.head hab hby) hy⟩
    rintro rfl
    -- a name of the way back is not passed twice before `c`, where the cut chain ends
    exact not_transGen_self (.head hab hbc) hend (.head' hab hby)

/-- **The loop ends where the chain does, or at the first of its names that is on a circle.** -/
theorem walks_of_approaches (h : Relation.ReflTransGen (Approaches next) x y) (hy : Stops next y)
    (hfree : ∀ z, Relation.ReflTransGen (Follows next) x z → z ∉ seen) : Walks next seen x y := by
  induction h using Relation.ReflTransGen.head_induction_on generalizing seen with
  | refl =>
    rcases hy with hend | hcircle
    · exact .ended (hfree y .refl) hend
    · obtain ⟨z, hyz, hback⟩ := Relation.TransGen.head'_iff.1 hcircle
      refine .step (hfree y .refl) hyz (walks_back (reflTransGen_cutAt hback) List.mem_cons_self fun w hw hne => ?_)
      rw [List.mem_cons, not_or]
      exact ⟨hne, hfree w (.head hyz (hw.lift id fun a b hab => (follows_cutAt_iff.1 hab).1))⟩
  | @head a b hab _ ih =>
    refine .step (hfree a .refl) hab.1 (ih fun z hz => ?_)
    rw [List.mem_cons, not_or]
    refine ⟨?_, hfree z (.head hab.1 hz)⟩
    rintro rfl
    exact hab.2 (.head' hab.1 hz)

/-- a name before a circle of two leads to the one that it names -/
example : chaseFrom (fun x => [("A", "B"), ("B", "C"), ("C", "B")].lookup x) 4 [] "A" = "B" := by decide

/-- where a chain stops it has stopped for the first time -/
theorem exists_first (h : Relation.ReflTransGen (Follows next) x y) (hy : Stops next y) :
    ∃ z, Relation.ReflTransGen (Approaches next) x z ∧ Stops next z := by
  induction h using Relation.ReflTransGen.head_induction_on with
  | refl => exact ⟨y, .refl, hy⟩
  | @head a b hab _ ih =>
    obtain ⟨z, hz, hstops⟩ := ih
    by_cases ha : OnCircle next a
    · exact ⟨a, .refl, .inr ha⟩
    · exact ⟨z, .head ⟨hab, ha⟩ hz, hstops⟩

/-- a chain that ends has no circle before its end -/
theorem approaches_of_end (h : Relation.ReflTransGen (Follows next) x e) (hend : next e = none) :
    Relation.ReflTransGen (Approaches next) x e := by
  induction h using Relation.ReflTransGen.head_induction_on with
  | refl => exact .refl
  | @head a b hab hbe ih => exact .head ⟨hab, not_transGen_self (.head hab hbe) hend⟩ ih

/-! ## What is found -/

/-- what is found for each name is where its chain settles: at its end, or in its circle -/
structure Settles (next : String → Option String) (find : String → String) : Prop where
  /-- the loop ends, for every name, and it does so there -/
  walks : ∀ x y, Walks next [] x y ↔ y = find x
  /-- a chain that ends is followed to its end -/
  ended : ∀ x e, Relation.ReflTransGen (Follows next) x e → next e = none → find x = e
  /-- a chain that does not is followed to the first of its names that is on a circle -/
  circular : ∀ x, (∀ e, Relation.ReflTransGen (Follows next) x e → next e ≠ none) →
    Relation.ReflTransGen (Approaches next) x (find x) ∧ OnCircle next (find x)
  /-- a name that has a successor is found only on a circle -/
  onCircle : ∀ x y, Follows next (find x) y → OnCircle next (find x)
  idempotent : ∀ x, find (find x) = find x

/-- chains settle where the loop ends -/
theorem settles_of_walks {find : String → String} (h : ∀ x, Walks next [] x (find x)) : Settles next find := by
  have hstops : ∀ x, Stops next (find x) := fun x => (h x).stops (List.forall_mem_nil _)
  have hfind : ∀ x y, Relation.ReflTransGen (Approaches next) x y → Stops next y → find x = y := by
    intro x y hxy hy
    exact (h x).unique (walks_of_approaches hxy hy fun _ _ => List.not_mem_nil)
  refine ⟨fun x y => ?_, fun x e hxe hend => ?_, fun x hendless => ?_, fun x y hxy => ?_, fun x => ?_⟩
  · constructor
    · exact fun hwalks => hwalks.unique (h x)
    · rintro rfl
      exact h x
  · exact hfind x e (approaches_of_end hxe hend) (.inl hend)
  · obtain ⟨z, hxz, hz⟩ := exists_first (h x).reaches (hstops x)
    obtain rfl := hfind x z hxz hz
    exact ⟨hxz, hz.resolve_left (hendless _ (h x).reaches)⟩
  · refine (hstops x).resolve_left fun hend => ?_
    rw [Follows, hend] at hxy
    cases hxy
  · exact hfind (find x) (find x) .refl (hstops x)

namespace Table

variable {t : Table}

theorem mem_of_get? {d : Definition} (h : t.get? x = some d) : d ∈ t.definitions := by
  obtain ⟨i, -, hi⟩ := Option.bind_eq_some_iff.1 h
  exact Array.mem_of_getElem? hi

/-- **`chase` finds where chains settle**, whatever the definitions of the table and its index are. -/
theorem settles_chase (t : Table) (next : Definition → Option String) :
    Settles (fun x => (t.get? x).bind next) (t.chase next) := by
  refine settles_of_walks fun x => walks_chaseFrom x (t.definitions.toList.filterMap next) ?_ ?_ ?_ ?_
  · intro a b hab
    obtain ⟨d, hd, hb⟩ := Option.bind_eq_some_iff.1 hab
    exact List.mem_filterMap.2 ⟨d, Array.mem_toList_iff.2 (mem_of_get? hd), hb⟩
  · exact List.nodup_nil
  · exact List.cons_subset.2 ⟨List.mem_cons_self, List.nil_subset _⟩
  · have hlength : (t.definitions.toList.filterMap next).length ≤ t.definitions.size := by
      rw [← Array.length_toList]
      exact List.length_filterMap_le next t.definitions.toList
    exact Nat.lt_succ_of_le hlength

/-- the name of a type that is an enum: of an enum, or of a typedef with an enum declared inline -/
def NamesEnum (t : Table) (x e : String) : Prop :=
  (∃ tags, t.get? x = some (.enum e tags)) ∨
    ∃ m id tags, t.get? x = some (.typedef m) ∧ m.body = some (.enum id tags) ∧ e = underscored m.id

/-- an enum ends a chain of typedefs -/
theorem NamesEnum.target?_eq_none (h : t.NamesEnum x e) : (t.get? x).bind Definition.target? = none := by
  rcases h with ⟨tags, hd⟩ | ⟨⟨name, type, q, bound, body⟩, id, tags, hd, rfl, rfl⟩
  · rw [hd]
    rfl
  · rw [hd]
    rfl

theorem enumType?_eq_some_iff : t.enumType? x = some e ↔ t.NamesEnum (t.chase Definition.target? x) e := by
  unfold enumType? NamesEnum
  constructor
  · intro h
    split at h
    · rename_i id tags hd
      obtain rfl := Option.some.inj h
      exact .inl ⟨tags, hd⟩
    · rename_i id type q bound inner tags hd
      obtain rfl := Option.some.inj h
      exact .inr ⟨_, inner, tags, hd, rfl, rfl⟩
    · cases h
  · rintro (⟨tags, hd⟩ | ⟨⟨name, type, q, bound, body⟩, id, tags, hd, rfl, rfl⟩)
    · rw [hd]
    · rw [hd]

/-- what chains of names lead to -/
structure ChainsSettle (t : Table) : Prop where
  /-- constants, to their values -/
  constants : Settles (fun x => (t.get? x).bind Definition.constValue?) t.resolve
  /-- types that are mere aliases, to what they rename -/
  aliases : Settles (fun x => (t.get? x).bind Definition.aliased?) t.baseType
  /-- typedefs, to what they are made of -/
  typedefs : Settles (fun x => (t.get? x).bind Definition.target?) (t.chase Definition.target?)
  /-- a type is an enum if its chain of typedefs comes to one, and no other -/
  enums : ∀ x e, t.enumType? x = some e ↔
    ∃ y, Relation.ReflTransGen (Follows fun x => (t.get? x).bind Definition.target?) x y ∧ t.NamesEnum y e

end Table

/-- **Chains of names settle in every table.** The loops along constants, along typedefs that are mere aliases and along
typedefs up to an enum end for every name, also where definitions name one another in circles: at the end of the chain
if there is one, and else at the first of its names that is on a circle. So a name that goes on is found on a circle
only, and what was found is found again. -/
theorem chains_settle (t : Table) : t.ChainsSettle := by
  have htypedefs := t.settles_chase Definition.target?
  refine ⟨t.settles_chase _, t.settles_chase _, htypedefs, fun x e => ?_⟩
  rw [Table.enumType?_eq_some_iff]
  constructor
  · exact fun h => ⟨_, ((htypedefs.walks x _).2 rfl).reaches, h⟩
  · rintro ⟨y, hxy, hy⟩
    rwa [htypedefs.ended x y hxy hy.target?_eq_none]

end Xdr
