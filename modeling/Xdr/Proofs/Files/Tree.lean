/-
Files that are written and read again.

A file that is written stands where its path leads. Writing changes what is found at that one place, which was no
directory; all directories stay, so the same path leads there again.
- `write_eq_ok_iff`: when a file can be written, and what is then in the tree.
- `walk_put`: a path leads where it led before.
- `read_of_write`: what was written is read.
-/
import Mathlib.Tactic.SplitIfs
import Xdr.FileTree

namespace Xdr.FileTree

variable {t t' : FileTree} {path text : String} {place names : List String}

/-- the tree with a file of that content at that place -/
def put (t : FileTree) (place : List String) (content : ByteArray) : FileTree :=
  { t with entries := (place, .file content) :: t.entries.filter (·.1 ≠ place) }

theorem write_eq_ok_iff : t.write path text = .ok t' ↔ checkPath path = .ok () ∧ endsInSlash path = false ∧
    ∃ place, t.walk (t.start path) (namesOf path) = .ok place ∧ t.find? place ≠ some .directory ∧
      t.put place text.toUTF8 = t' := by
  unfold write
  cases hcheck : checkPath path with
  | error e => simp [bind, Except.bind]
  | ok _ =>
    cases hwalk : t.walk (t.start path) (namesOf path) with
    | error e => simp [bind, Except.bind]
    | ok place =>
      cases hslash : endsInSlash path with
      | true => simp [bind, Except.bind, throw, throwThe, MonadExceptOf.throw]
      | false =>
        rcases hfind : t.find? place with _ | (content | _) <;>
          simp [bind, Except.bind, pure, Except.pure, throw, throwThe, MonadExceptOf.throw, put, hfind]

/-! ## What is found -/

theorem find?_put_self (t : FileTree) (place : List String) (content : ByteArray) :
    (t.put place content).find? place = some (.file content) := by
  simp [find?, put]

theorem lookup_filter_of_ne (entries : List (List String × FileEntry)) (h : names ≠ place) :
    (entries.filter (·.1 ≠ place)).lookup names = entries.lookup names := by
  induction entries with
  | nil => rfl
  | cons e entries ih =>
    by_cases he : e.1 = place
    · have hne : (names == e.1) = false := by simpa [he] using h
      rw [List.filter_cons_of_neg (by simpa using he), ih, List.lookup_cons, hne]
    · rw [List.filter_cons_of_pos (by simpa using he), List.lookup_cons, List.lookup_cons, ih]

theorem lookup_put_of_ne (content : ByteArray) (h : names ≠ place) :
    (t.put place content).entries.lookup names = t.entries.lookup names := by
  have hne : (names == place) = false := by simpa using h
  rw [put, List.lookup_cons, hne]
  exact lookup_filter_of_ne t.entries h

/-- a directory stays when a file is written somewhere else -/
theorem find?_put_directory (content : ByteArray) (h : t.find? names = some .directory) (hne : names ≠ place) :
    (t.put place content).find? names = some .directory := by
  rw [find?] at h ⊢
  rw [lookup_put_of_ne content hne]
  cases hlookup : t.entries.lookup names with
  | some e =>
    rw [hlookup] at h
    exact h
  | none =>
    rw [hlookup] at h
    dsimp only at h ⊢
    split_ifs at h with hbelow
    rw [if_pos]
    rw [Bool.or_eq_true, List.any_eq_true] at hbelow ⊢
    apply hbelow.imp_right
    rintro ⟨e, he, hprefix⟩
    by_cases hplace : e.1 = place
    · exact ⟨(place, .file content), List.mem_cons_self, by rwa [hplace] at hprefix⟩
    · exact ⟨e, List.mem_cons_of_mem _ (List.mem_filter.2 ⟨he, by simpa using hplace⟩), hprefix⟩

/-! ## Where a path leads -/

/-- a step leaves a directory -/
theorem find?_of_step {name : String} (h : t.step names name = .ok place) : t.find? names = some .directory := by
  unfold step at h
  split at h
  · cases h
  · cases h
  · assumption

theorem step_congr {name : String} (h : t.find? names = t'.find? names) : t.step names name = t'.step names name := by
  rw [step, step, h]

theorem walk_cons (t : FileTree) (place : List String) (name : String) (names : List String) :
    t.walk place (name :: names) = (t.step place name).bind fun next => t.walk next names :=
  rfl

/-- a path leads where it led before; every place on the way is a directory, so it is not the place of the file -/
theorem walk_put {start : List String} (content : ByteArray) (h : t.walk start names = .ok place)
    (hplace : t.find? place ≠ some .directory) : (t.put place content).walk start names = .ok place := by
  induction names generalizing start with
  | nil => exact h
  | cons name names ih =>
    rw [walk_cons] at h ⊢
    cases hstep : t.step start name with
    | error e =>
      rw [hstep] at h
      cases h
    | ok next =>
      have hstart := find?_of_step hstep
      have hne : start ≠ place := by
        rintro rfl
        exact hplace hstart
      have hstep' : (t.put place content).step start name = .ok next := by
        rw [← hstep]
        exact step_congr ((find?_put_directory content hstart hne).trans hstart.symm)
      rw [hstep] at h
      rw [hstep']
      exact ih h

theorem fromUTF8?_toUTF8 (s : String) : String.fromUTF8? s.toUTF8 = some s := by
  simp [String.fromUTF8?, String.fromUTF8, s.isValidUTF8]

/-- **What was written is read.** -/
theorem read_of_write (h : t.write path text = .ok t') : t'.read path = .ok text := by
  obtain ⟨hcheck, hslash, place, hwalk, hplace, rfl⟩ := write_eq_ok_iff.1 h
  have hwalk' := walk_put text.toUTF8 hwalk hplace
  have hstart : (t.put place text.toUTF8).start path = t.start path := rfl
  rw [read, hcheck, hslash, hstart]
  simp only [Bool.false_eq_true, if_false, List.append_nil, hwalk', bind, Except.bind, find?_put_self, fromUTF8?_toUTF8]
  rfl

end Xdr.FileTree
