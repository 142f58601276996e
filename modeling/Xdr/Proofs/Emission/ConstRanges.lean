/-
Ranges of constants.

A constant is generated with the first of four integer types that contains its value. A literal may be longer than any
of them, and what none of them contains is generated with the last one all the same.
- `IntType.contains_iff_holds`: the numbers that a type contains are those between its least and its greatest one.
- `IntType.exists_split_ofValue`: no type is passed over that contains the value.
- `IntType.contains_ofValue_iff`: the last type is no better than the others where none of them contains the value.
- `constants_fit_iff`: which constants of a reachable table have a type that contains their value.
- `outgrown_accepted`: a schema that is accepted and has constants that do not fit their type.
-/
import Mathlib.Algebra.Group.Int.Defs
import Xdr.Proofs.Emission.TagNumbers

namespace Xdr

open Code

namespace IntType

variable {type : IntType} {v : Int}

/-! ## What a type contains -/

/-- the integer types, in the order in which they are tried -/
def all : List IntType := [i32, u32, i64, u64]

def bits : IntType → Nat
  | i32 | u32 => 32
  | i64 | u64 => 64

def isSigned : IntType → Bool
  | i32 | i64 => true
  | u32 | u64 => false

/-- the spelling of a type tells its sign and its size -/
theorem text_eq (type : IntType) : type.text = (if type.isSigned then "i" else "u") ++ toString type.bits := by
  cases type <;> decide

/-- the number that a word of the type is -/
def valueOf (type : IntType) (w : BitVec type.bits) : Int := if type.isSigned then w.toInt else w.toNat

/-- some word of the type is the number -/
def Contains (type : IntType) (v : Int) : Prop := ∃ w, type.valueOf w = v

theorem exists_toInt_iff {n : Nat} (hn : 0 < n) :
    (∃ w : BitVec n, w.toInt = v) ↔ -2 ^ (n - 1) ≤ v ∧ v < 2 ^ (n - 1) := by
  constructor
  · rintro ⟨w, rfl⟩
    exact ⟨BitVec.le_toInt w, BitVec.toInt_lt⟩
  · rintro ⟨hleast, hgreatest⟩
    exact ⟨BitVec.ofInt n v, BitVec.toInt_ofInt_eq_self hn hleast hgreatest⟩

theorem exists_toNat_iff {n : Nat} : (∃ w : BitVec n, (w.toNat : Int) = v) ↔ 0 ≤ v ∧ v < 2 ^ n := by
  constructor
  · rintro ⟨w, rfl⟩
    exact ⟨Int.natCast_nonneg _, by exact_mod_cast w.isLt⟩
  · rintro ⟨hleast, hgreatest⟩
    refine ⟨BitVec.ofNat n v.toNat, ?_⟩
    have hsmall : v.toNat < 2 ^ n := (Int.toNat_lt hleast).2 (by exact_mod_cast hgreatest)
    rw [BitVec.toNat_ofNat, Nat.mod_eq_of_lt hsmall, Int.toNat_of_nonneg hleast]

theorem holds_iff : type.holds v = true ↔ type.least ≤ v ∧ v ≤ type.greatest := by
  rw [holds, Bool.and_eq_true, decide_eq_true_iff, decide_eq_true_iff]

/-- a type contains the numbers between its least and its greatest one -/
theorem contains_iff_holds : type.Contains v ↔ type.holds v = true := by
  rw [holds_iff]
  cases type with
  | i32 =>
    refine (exists_toInt_iff (n := 32) (by decide)).trans ?_
    simp only [least, greatest]
    omega
  | u32 =>
    refine (exists_toNat_iff (n := 32)).trans ?_
    simp only [least, greatest]
    omega
  | i64 =>
    refine (exists_toInt_iff (n := 64) (by decide)).trans ?_
    simp only [least, greatest]
    omega
  | u64 =>
    refine (exists_toNat_iff (n := 64)).trans ?_
    simp only [least, greatest]
    omega

/-! ## The type of a value -/

/-- **No type is passed over that contains the value.** -/
theorem exists_split_ofValue (v : Int) :
    ∃ before after, all = before ++ ofValue v :: after ∧ ∀ e ∈ before, ¬ e.Contains v := by
  simp only [contains_iff_holds]
  unfold ofValue
  split_ifs with h32 hu32 h64
  · exact ⟨[], _, rfl, List.forall_mem_nil _⟩
  · exact ⟨[i32], _, rfl, by simpa using h32⟩
  · exact ⟨[i32, u32], _, rfl, by simp [h32, hu32]⟩
  · exact ⟨[i32, u32, i64], _, rfl, by simp [h32, hu32, h64]⟩

/-- the types together contain the numbers from the least signed one of 64 bits to the greatest unsigned one -/
theorem exists_contains_iff : (∃ e : IntType, e.Contains v) ↔ -2 ^ 63 ≤ v ∧ v < 2 ^ 64 := by
  simp only [contains_iff_holds, holds_iff]
  constructor
  · rintro ⟨e, hleast, hgreatest⟩
    cases e with
    | i32 | u32 | i64 | u64 =>
      simp only [least, greatest] at hleast hgreatest
      omega
  · rintro ⟨hleast, hgreatest⟩
    by_cases hneg : v < 0
    · refine ⟨i64, ?_⟩
      simp only [least, greatest]
      omega
    · refine ⟨u64, ?_⟩
      simp only [least, greatest]
      omega

/-- **The type of a value contains it where any type does.** -/
theorem contains_ofValue_iff : (ofValue v).Contains v ↔ ∃ e : IntType, e.Contains v := by
  refine ⟨fun h => ⟨_, h⟩, ?_⟩
  rintro ⟨e, he⟩
  rw [contains_iff_holds] at he ⊢
  unfold ofValue
  split_ifs with h32 hu32 h64
  · exact h32
  · exact hu32
  · exact h64
  · -- the last type is taken without a look at the value
    cases e with
    | i32 => exact absurd he h32
    | u32 => exact absurd he hu32
    | i64 => exact absurd he h64
    | u64 => exact he

end IntType

/-! ## Constants -/

section

variable {t : Table} (ht : t.Reachable) {a b text : String} {v : Int}

include ht

theorem constType_of_literal (hv : Integer.read? text = some v) :
    t.constType text = .integer (IntType.ofValue v) := by
  have hname : isName text = false := by
    rw [← Bool.not_eq_true]
    intro hname
    rw [read?_of_isName hname] at hv
    cases hv
  rw [Table.constType, integer?_of_not_name ht hname, hv]

/-- a chain of constants that ends at a literal gives every constant on it the type of the literal's value -/
theorem constTyped_of_literal (hchain : Relation.ReflTransGen t.Aliases a b) (hd : .const b text ∈ t.definitions)
    (hv : Integer.read? text = some v) : t.ConstTyped a (.integer (IntType.ofValue v)) := by
  rw [← constType_of_literal ht hv]
  exact Table.constTyped_of_aliases ht hchain hd

/-- a constant with a literal for its value is generated with the literal -/
theorem mem_emission_of_literal (hd : .const a text ∈ t.definitions) (hv : Integer.read? text = some v) :
    .const a (.integer (IntType.ofValue v)) (.literal text) ∈ t.emission.fragments := by
  refine (mem_emission_const_iff ht).2 ⟨text, hd, (constType_of_literal ht hv).symm, ?_⟩
  rw [Table.constValue, hv, Option.isSome_some, if_pos rfl]

end

/-- **A constant fits its type where its value fits any of the integer types.** In a reachable table, a constant whose
chain ends at an integer literal is generated with one type. No type that is tried before it contains the value; and it
contains the value exactly when some type does, that is from the least signed number of 64 bits to the greatest unsigned
one. -/
theorem constants_fit_iff {t : Table} (ht : t.Reachable) {a b text : String} {v : Int}
    (hchain : Relation.ReflTransGen t.Aliases a b) (hd : .const b text ∈ t.definitions)
    (hv : Integer.read? text = some v) :
    ∃ before type after, IntType.all = before ++ type :: after ∧ t.ConstTyped a (.integer type) ∧
      (∀ e ∈ before, ¬ e.Contains v) ∧ (type.Contains v ↔ ∃ e : IntType, e.Contains v) ∧
      (type.Contains v ↔ -2 ^ 63 ≤ v ∧ v < 2 ^ 64) := by
  obtain ⟨before, after, hall, hbefore⟩ := IntType.exists_split_ofValue v
  refine ⟨before, IntType.ofValue v, after, hall, constTyped_of_literal ht hchain hd hv, hbefore,
    IntType.contains_ofValue_iff, ?_⟩
  rw [IntType.contains_ofValue_iff, IntType.exists_contains_iff]

/-- a constant with the greatest value of a type for its own, and one that names it -/
def greatestSchema : List Definition := [.const "LAST" "0xffffffff", .const "MAX" "LAST"]

theorem constants_fit_iff_sample : ∃ t, Table.empty.addSource (schemaText greatestSchema) = (t, .ok 2) ∧ t.Reachable ∧
    Relation.ReflTransGen t.Aliases "MAX" "LAST" ∧ .const "LAST" "0xffffffff" ∈ t.definitions ∧
    Integer.read? "0xffffffff" = some 0xFFFFFFFF ∧ t.ConstTyped "MAX" (.integer .u32) ∧
    IntType.u32.Contains 0xFFFFFFFF ∧ ¬ IntType.i32.Contains 0xFFFFFFFF := by
  have hg : ∀ d ∈ greatestSchema, d.grammatical = true := by decide
  obtain ⟨t, hadd, ht, hds⟩ := exists_table_of_acceptable hg (by decide)
  have hmem : ∀ d ∈ greatestSchema, d ∈ t.definitions := fun d hd => Array.mem_toList_iff.1 (hds ▸ hd)
  have hlast : .const "LAST" "0xffffffff" ∈ t.definitions := hmem _ List.mem_cons_self
  have hmax : .const "MAX" "LAST" ∈ t.definitions := hmem _ (List.mem_cons_of_mem _ List.mem_cons_self)
  have hchain : Relation.ReflTransGen t.Aliases "MAX" "LAST" := .single ⟨hmax, _, hlast⟩
  have hread : Integer.read? "0xffffffff" = some 0xFFFFFFFF := by decide
  obtain ⟨before, type, after, hall, htyped, hbefore, -, hcontains⟩ := constants_fit_iff ht hchain hlast hread
  have hi32 : ¬ IntType.i32.Contains 0xFFFFFFFF := mt IntType.contains_iff_holds.1 (by decide)
  obtain rfl : IntType.u32 = type := ConstType.integer.inj ((constTyped_of_literal ht hchain hlast hread).eq htyped)
  exact ⟨t, hadd, ht, hchain, hlast, hread, htyped, hcontains.2 (by decide), hi32⟩

/-- a constant above all integer types, and one below them -/
def outgrownSchema : List Definition := [.const "BIG" "0x10000000000000000", .const "LOW" "-0x8000000000000001"]

/-- **A schema is accepted in which constants do not fit their types:** both are taken for unsigned numbers of 64 bits,
one beyond the greatest of these, and one that is negative. -/
theorem outgrown_accepted : ∃ t, Table.empty.addSource (schemaText outgrownSchema) = (t, .ok 2) ∧
    Integer.read? "0x10000000000000000" = some (2 ^ 64) ∧ Integer.read? "-0x8000000000000001" = some (-2 ^ 63 - 1) ∧
    .const "BIG" (.integer .u64) (.literal "0x10000000000000000") ∈ t.emission.fragments ∧
    .const "LOW" (.integer .u64) (.literal "-0x8000000000000001") ∈ t.emission.fragments ∧
    ¬ IntType.u64.Contains (2 ^ 64) ∧ ¬ IntType.u64.Contains (-2 ^ 63 - 1) := by
  have hg : ∀ d ∈ outgrownSchema, d.grammatical = true := by decide
  obtain ⟨t, hadd, ht, hds⟩ := exists_table_of_acceptable hg (by decide)
  have hmem : ∀ d ∈ outgrownSchema, d ∈ t.definitions := fun d hd => Array.mem_toList_iff.1 (hds ▸ hd)
  have hbig : Integer.read? "0x10000000000000000" = some (2 ^ 64) := by decide
  have hlow : Integer.read? "-0x8000000000000001" = some (-2 ^ 63 - 1) := by decide
  exact ⟨t, hadd, hbig, hlow, mem_emission_of_literal ht (hmem _ List.mem_cons_self) hbig,
    mem_emission_of_literal ht (hmem _ (List.mem_cons_of_mem _ List.mem_cons_self)) hlow,
    mt IntType.contains_iff_holds.1 (by decide), mt IntType.contains_iff_holds.1 (by decide)⟩

end Xdr
