/-
Failures over runs of calls.

A table remembers which files failed. `failure?` is what the caller of one call is told; `Fails` says how a file can
fail, and in which words.
- `failure?_eq_some_iff`: files fail in these ways only, and no other call does.
- `failures_call`, `failures_calls`: a call adds its own failure, and a run those of its calls in order.
- `failures_recorded`: the failures of every run from the empty table, and what is generated after it.
-/
import Mathlib.Data.List.Induction
import Xdr.Proofs.Table.Calls
import Xdr.Proofs.Table.Concat

namespace Xdr.Table

/-! ## One call -/

/-- the error that the call of a file ends with; a definition or a source that is added alone is no file -/
def failure? (t : Table) : Call → Option InputError
  | .insert _ => none
  | .addSource _ => none
  | .addInput path read =>
    match (t.addInput path read).2 with
    | .ok _ => none
    | .error e => some e

/-- a file fails since it cannot be read or since its source is refused; the error names the file, once -/
inductive Fails (t : Table) : Call → InputError → Prop
  | unreadable (path : String) (cause : FileError) : Fails t (.addInput path (.error cause)) (.unreadable path cause)
  | faulty {path source : String} {cause : SourceError} (h : (t.addSource source).2 = .error cause) :
    Fails t (.addInput path (.ok source)) (.faulty (some path) cause)

variable {t : Table} {c : Call} {e : InputError}

theorem addInput_of_ok {source : String} {n : Nat} (path : String) (h : (t.addSource source).2 = .ok n) :
    t.addInput path (.ok source) = ((t.addSource source).1, .ok n) := by
  rw [addInput]
  rcases hadd : t.addSource source with ⟨t', cause | m⟩
  · rw [hadd] at h
    cases h
  · rw [hadd] at h
    cases h
    rfl

theorem addInput_of_error {source : String} {cause : SourceError} (path : String)
    (h : (t.addSource source).2 = .error cause) :
    t.addInput path (.ok source) = (t.addSource source).1.fail (.faulty (some path) cause) := by
  rw [addInput]
  rcases hadd : t.addSource source with ⟨t', cause' | m⟩
  · rw [hadd] at h
    cases h
    rfl
  · rw [hadd] at h
    cases h

theorem failure?_eq_some_iff : t.failure? c = some e ↔ Fails t c e := by
  constructor
  · intro h
    match c with
    | .addInput path (.error cause) =>
      cases h
      exact .unreadable path cause
    | .addInput path (.ok source) =>
      cases hadd : (t.addSource source).2 with
      | ok n =>
        rw [failure?, addInput_of_ok path hadd] at h
        cases h
      | error cause =>
        rw [failure?, addInput_of_error path hadd] at h
        cases h
        exact .faulty hadd
  · intro h
    cases h with
    | unreadable path cause => rfl
    | faulty hadd => rw [failure?, addInput_of_error _ hadd, fail]

/-- an error that is remembered has its file, and takes no other -/
theorem Fails.inFile (h : Fails t c e) (path : String) : e.inFile path = e := by
  cases h <;> rfl

/-- **A call adds its own failure to those before it.** -/
theorem failures_call (t : Table) (c : Call) : (t.call c).failures = t.failures ++ (t.failure? c).toList := by
  match c with
  | .insert d =>
    rw [call, failure?, Option.toList_none, List.append_nil]
    cases hinsert : t.insert d with
    | error _ => rfl
    | ok t' =>
      obtain ⟨-, -, -, rfl⟩ := insert_eq_ok_iff.1 hinsert
      rfl
  | .addSource source =>
    rw [call, failure?, Option.toList_none, List.append_nil]
    exact failures_of_addSource rfl
  | .addInput path (.error cause) => rfl
  | .addInput path (.ok source) =>
    have hsource : (t.addSource source).1.failures = t.failures := failures_of_addSource rfl
    rw [call, failure?]
    cases hadd : (t.addSource source).2 with
    | ok n =>
      rw [addInput_of_ok path hadd]
      dsimp only
      rw [hsource, Option.toList_none, List.append_nil]
    | error cause =>
      rw [addInput_of_error path hadd]
      dsimp only [fail]
      rw [hsource, Option.toList_some]

/-! ## Runs -/

/-- the failure of the call at position `i` of a run -/
def failureAt (t : Table) (cs : List Call) (i : Nat) : Option InputError :=
  cs[i]?.bind (t.calls (cs.take i)).failure?

/-- a run adds the failures of its calls in order -/
theorem failures_calls (t : Table) (cs : List Call) :
    (t.calls cs).failures = t.failures ++ (List.range cs.length).filterMap (t.failureAt cs) := by
  -- on the last call: the calls before it do not see it
  induction cs using List.reverseRecOn with
  | nil => exact (List.append_nil _).symm
  | append_singleton cs c ih =>
    have hbefore : ∀ i ∈ List.range cs.length, t.failureAt (cs ++ [c]) i = t.failureAt cs i := by
      intro i hi
      have hlt := List.mem_range.1 hi
      rw [failureAt, failureAt, List.getElem?_append_left hlt, List.take_append_of_le_length (Nat.le_of_lt hlt)]
    have hlast : t.failureAt (cs ++ [c]) cs.length = (t.calls cs).failure? c := by
      rw [failureAt, List.getElem?_concat_length, List.take_left, Option.bind_some]
    rw [calls_append, List.length_append, List.length_singleton, List.range_succ, List.filterMap_append,
      List.filterMap_congr hbefore, ← List.append_assoc, ← ih, List.filterMap_cons, List.filterMap_nil, hlast]
    refine (failures_call _ c).trans (congrArg _ ?_)
    cases (t.calls cs).failure? c <;> rfl

theorem failures_prefix (t : Table) (cs cs' : List Call) :
    (t.calls cs).failures <+: (t.calls (cs ++ cs')).failures := by
  rw [calls_append, failures_calls _ cs']
  exact List.prefix_append _ _

/-! ## Generation -/

theorem failed_iff : t.failed = true ↔ t.failures ≠ [] := by
  simp [failed]

/-- a table without failures is generated -/
theorem generate_of_failures_eq_nil (o : Options) (h : t.failures = []) :
    (t.generate o).result = .ok (o.text t.emission.fragments.toList) := by
  rw [generate, if_neg]
  exact fun hfailed => failed_iff.1 hfailed h

theorem generate_of_failures (o : Options) (h : t.failures ≠ []) :
    (t.generate o).result = .error (.inputs t.failures.length) := by
  rw [generate, if_pos (failed_iff.2 h)]

/-- **Failures are recorded exactly, and stay.** After every run of calls on the empty table, the failures are those of
the calls that failed for a file, one for each and in order: the file could not be read or its source was refused, and
the error names it, once and for good. Sources and definitions that are added alone leave the failures as they are,
faulty or not. A table that failed once has failed after every run that follows, whatever succeeds. Generation is
refused with the number of failures as long as there is one, and gives code otherwise. -/
theorem failures_recorded (cs : List Call) :
    (Table.empty.calls cs).failures = (List.range cs.length).filterMap (Table.empty.failureAt cs) ∧
    (∀ (i : Nat) (c : Call) (e : InputError), cs[i]? = some c →
      (Table.empty.failureAt cs i = some e ↔ Fails (Table.empty.calls (cs.take i)) c e)) ∧
    (∀ e ∈ (Table.empty.calls cs).failures, ∀ path, e.inFile path = e) ∧
    (∀ c, (∀ path read, c ≠ .addInput path read) →
      (Table.empty.calls (cs ++ [c])).failures = (Table.empty.calls cs).failures) ∧
    (∀ cs', (Table.empty.calls cs).failed = true → (Table.empty.calls (cs ++ cs')).failed = true) ∧
    ∀ o, ((Table.empty.calls cs).generate o).result =
      if (Table.empty.calls cs).failures = [] then
        .ok (o.text (Table.empty.calls cs).emission.fragments.toList)
      else .error (.inputs (Table.empty.calls cs).failures.length) := by
  have hrun := failures_calls .empty cs
  rw [show Table.empty.failures = [] from rfl, List.nil_append] at hrun
  have hat : ∀ (i : Nat) (c : Call) (e : InputError), cs[i]? = some c →
      (Table.empty.failureAt cs i = some e ↔ Fails (Table.empty.calls (cs.take i)) c e) := by
    intro i c e hc
    rw [failureAt, hc, Option.bind_some, failure?_eq_some_iff]
  refine ⟨hrun, hat, fun e he path => ?_, fun c hc => ?_, fun cs' h => ?_, fun o => ?_⟩
  · rw [hrun] at he
    obtain ⟨i, hi, hfails⟩ := List.mem_filterMap.1 he
    have hc := List.getElem?_eq_getElem (List.mem_range.1 hi)
    exact ((hat i _ e hc).1 hfails).inFile path
  · have hnone : (Table.empty.calls cs).failure? c = none := by
      cases c with
      | insert d => rfl
      | addSource source => rfl
      | addInput path read => exact absurd rfl (hc path read)
    rw [calls_append]
    exact (failures_call _ c).trans (by rw [hnone, Option.toList_none, List.append_nil])
  · rw [failed_iff] at h ⊢
    exact fun hnil => h (List.prefix_nil.1 (hnil ▸ failures_prefix .empty cs cs'))
  · split_ifs with h
    · exact generate_of_failures_eq_nil o h
    · exact generate_of_failures o h

end Xdr.Table
