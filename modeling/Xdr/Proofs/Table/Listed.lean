/-
Answers of a table from the list of its definitions.

A table answers from an index and from a map of tags. In a reachable table both say what a search through the list of
definitions says, so the answers for a list that is given can be computed from the list alone.
- `Reachable.get?_eq_find?`, `Reachable.enumOf?_eq_find?`: names and tags.
- `Reachable.chase_eq_listed`: chains of names; `Reachable.integer?_eq_listed`: the integers that constants lead to.
-/
import Mathlib.Data.List.Nodup
import Xdr.Proofs.Table.Acceptance

namespace Xdr

variable {α : Type} {key : α → String} {l : List α} {x : String}

/-- where no two have one key, a search by the key finds the one that has it -/
theorem find?_key_eq_some_iff (h : (l.map key).Nodup) {a : α} :
    l.find? (fun b => key b = x) = some a ↔ a ∈ l ∧ key a = x := by
  constructor
  · intro hfind
    exact ⟨List.mem_of_find?_eq_some hfind, by simpa using List.find?_some hfind⟩
  · rintro ⟨ha, rfl⟩
    have hsome : (l.find? fun b => key b = key a).isSome = true := List.find?_isSome.2 ⟨a, ha, decide_eq_true rfl⟩
    obtain ⟨b, hb⟩ := Option.isSome_iff_exists.1 hsome
    have hkey : key b = key a := by simpa using List.find?_some hb
    rw [hb, List.inj_on_of_nodup_map h (List.mem_of_find?_eq_some hb) ha hkey]

/-- the definition of a name in a list -/
def definition? (ds : List Definition) (x : String) : Option Definition := ds.find? fun d => d.id = x

/-- the end of a chain in a list of definitions -/
def chaseListed (ds : List Definition) (next : Definition → Option String) (x : String) : String :=
  chaseFrom (fun x => (definition? ds x).bind next) (ds.length + 1) [] x

namespace Table

variable {t : Table} {ds : List Definition}

section

variable (ht : t.Reachable) (hds : t.definitions.toList = ds)

include ht hds

theorem Reachable.get?_eq_find? (x : String) : t.get? x = definition? ds x := by
  apply Option.ext
  intro d
  rw [ht.indexed.get?_eq_some_iff, definition?, find?_key_eq_some_iff (hds ▸ ht.ids_nodup), ← hds, Array.mem_toList_iff]

theorem Reachable.enumOf?_eq_find? (x : String) :
    t.enumOf? x = ((ds.flatMap Definition.tags).find? fun p => p.1 = x).map Prod.snd := by
  have htagged := ht.tagged
  have hnodup := htagged.nodup
  rw [tagList, hds] at hnodup
  apply Option.ext
  intro e
  rw [htagged.keys, tagList, hds, Option.map_eq_some_iff]
  simp only [find?_key_eq_some_iff hnodup]
  constructor
  · intro hmem
    exact ⟨(x, e), ⟨hmem, rfl⟩, rfl⟩
  · rintro ⟨⟨tag, enum⟩, ⟨hmem, rfl⟩, rfl⟩
    exact hmem

theorem Reachable.chase_eq_listed (next : Definition → Option String) (x : String) :
    t.chase next x = chaseListed ds next x := by
  simp only [chase, chaseListed, ht.get?_eq_find? hds, ← hds, Array.length_toList]

theorem Reachable.resolve_eq_listed (x : String) : t.resolve x = chaseListed ds Definition.constValue? x :=
  ht.chase_eq_listed hds Definition.constValue? x

theorem Reachable.integer?_eq_listed (x : String) :
    t.integer? x = Integer.read? (chaseListed ds Definition.constValue? x) := by
  rw [integer?, ht.resolve_eq_listed hds]

end

end Table

end Xdr
