/-
Files that are generated for, by library, build and command.

`Attempts` says what becomes of files one after another, whoever asks for it: each is added to the table that the ones
before it left, or it fails, and a failed file keeps what it defined before its fault.
- `Attempts.exists`, `Attempts.addFiles_eq`: every list of files is attempted, and the table is the one of the drivers.
- `Attempts.failures`: the table remembers the failures, and nothing else.
- `Log.text_append`, `Log.text_eq_of_hidden`: the lines of a log; what it does not show leaves no trace in it.
- `drivers_agree`: the drivers generate the same text from the same files, and fail for the same files.
- `warned_with_text`: a file for which the command gives its text and a warning.
-/
import Mathlib
import Xdr.CommandLine
import Xdr.Compile
import Xdr.Proofs.Emission.Warnings
import Xdr.Proofs.Files.Tree
import Xdr.Proofs.Table.Failures

namespace Xdr

/-! ## Files one after another -/

/-- the table after files that are attempted in order, and the failures among them -/
inductive Attempts (read : Reader) : Table → List String → Table → List InputError → Prop
  | nil (t : Table) : Attempts read t [] t []
  | added {t t' t'' : Table} {path source : String} {paths : List String} {n : Nat} {fs : List InputError}
    (hread : read path = .ok source) (hadd : t.addSource source = (t', .ok n))
    (h : Attempts read t' paths t'' fs) : Attempts read t (path :: paths) t'' fs
  | unreadable {t t' : Table} {path : String} {paths : List String} {cause : FileError} {fs : List InputError}
    (hread : read path = .error cause) (h : Attempts read (t.fail (.unreadable path cause)).1 paths t' fs) :
    Attempts read t (path :: paths) t' (.unreadable path cause :: fs)
  | faulty {t t' t'' : Table} {path source : String} {paths : List String} {cause : SourceError}
    {fs : List InputError} (hread : read path = .ok source) (hadd : t.addSource source = (t', .error cause))
    (h : Attempts read (t'.fail (.faulty (some path) cause)).1 paths t'' fs) :
    Attempts read t (path :: paths) t'' (.faulty (some path) cause :: fs)

variable {read : Reader} {t t' : Table} {paths : List String} {fs : List InputError}

theorem Attempts.exists (read : Reader) (t : Table) (paths : List String) : ∃ t' fs, Attempts read t paths t' fs := by
  induction paths generalizing t with
  | nil => exact ⟨t, [], .nil t⟩
  | cons path paths ih =>
    cases hread : read path with
    | error cause =>
      obtain ⟨t', fs, h⟩ := ih (t.fail (.unreadable path cause)).1
      exact ⟨t', _, .unreadable hread h⟩
    | ok source =>
      rcases hadd : t.addSource source with ⟨t₁, cause | n⟩
      · obtain ⟨t', fs, h⟩ := ih (t₁.fail (.faulty (some path) cause)).1
        exact ⟨t', _, .faulty hread hadd h⟩
      · obtain ⟨t', fs, h⟩ := ih t₁
        exact ⟨t', fs, .added hread hadd h⟩

/-- the drivers leave the table of the attempts -/
theorem Attempts.addFiles_eq (h : Attempts read t paths t' fs) : (t.addFiles read paths).1 = t' := by
  induction h with
  | nil => rfl
  | added hread hadd _ ih =>
    rw [Table.addFiles, Table.addFile_of_addSource hread hadd]
    exact ih
  | unreadable hread _ ih =>
    rw [Table.addFiles, Table.addFile, hread]
    exact ih
  | faulty hread hadd _ ih =>
    rw [Table.addFiles, Table.addFile, hread, Table.addInput, hadd]
    exact ih

theorem Attempts.failures (h : Attempts read t paths t' fs) : t'.failures = t.failures ++ fs := by
  induction h with
  | nil => rw [List.append_nil]
  | added _ hadd _ ih => rw [ih, Table.failures_of_addSource hadd]
  | unreadable _ _ ih => rw [ih, Table.fail, List.append_assoc, List.singleton_append]
  | faulty _ hadd _ ih =>
    rw [ih, Table.fail, List.append_assoc, List.singleton_append, Table.failures_of_addSource hadd]

theorem Attempts.generateFiles_eq (h : Attempts read .empty paths t fs) (o : Options) :
    (generateFiles read paths o).result = (t.generate o).result := by
  rw [generateFiles, ← h.addFiles_eq]

/-- what is reported of files that are attempted -/
def parsed (read : Reader) (paths : List String) : List Event := (Table.empty.addFiles read paths).2

theorem Attempts.events_generateFiles (h : Attempts read .empty paths t []) :
    (generateFiles read paths {}).events = parsed read paths ++ t.emission.events.toList := by
  have hfailures : t.failures = [] := h.failures
  have htable := h.addFiles_eq
  rcases hfiles : Table.empty.addFiles read paths with ⟨t', es⟩
  obtain rfl : t' = t := by rw [← htable, hfiles]
  rw [generateFiles, hfiles, parsed, hfiles]
  simp [hfailures, Table.generate, Table.failed]

/-! ## Logs -/

namespace Log

variable {log : Log} {n : Nat} {e : Event} {es es' : List Event}

theorem text_append (log : Log) (n : Nat) (es es' : List Event) :
    log.text n (es ++ es') = log.text n es ++ log.text (n + log.count es) es' := by
  rw [text, List.filter_append, List.zipIdx_append, List.map_append, String.join_append]
  rfl

/-- what is not shown leaves no trace -/
theorem text_eq_of_hidden (h : ∀ e ∈ es, log.shows e = false) : log.text n es = "" := by
  rw [text, List.filter_eq_nil_iff.2 fun e he => by simp [h e he]]
  rfl

theorem text_cons_of_hidden (h : log.shows e = false) : log.text n (e :: es) = log.text n es := by
  rw [text, text, List.filter_cons_of_neg (by simp [h])]

theorem shows_usual_eq_false_iff {line : Nat → Event → String} : (usual line).shows e = false ↔ e.level = .debug := by
  change decide (Level.warn.rank ≤ e.level.rank) = false ↔ e.level = .debug
  cases e.level <;> decide

end Log

/-- inputs that are read are no matter of concern -/
theorem level_of_mem_addFiles {e : Event} (he : e ∈ (t.addFiles read paths).2) : e.level = .debug := by
  induction paths generalizing t with
  | nil => cases he
  | cons path paths ih =>
    rcases hfile : t.addFile read path with ⟨t', es⟩
    have hes : ∀ e ∈ es, e.level = .debug := by
      unfold Table.addFile at hfile
      split at hfile <;> obtain ⟨-, rfl⟩ := Prod.mk.inj hfile
      · exact List.forall_mem_singleton.2 rfl
      · exact List.forall_mem_nil _
    rw [Table.addFiles, hfile, List.mem_append] at he
    exact he.elim (hes e) ih

/-! ## The command -/

namespace CommandLine

/-- arguments that do not begin with a dash are files -/
theorem parseFrom_of_files (files : List String) (h : ∀ p ∈ paths, p.startsWith "-" = false) :
    parseFrom files paths = request (files ++ paths) := by
  induction paths generalizing files with
  | nil => rw [parseFrom, List.append_nil]
  | cons path paths ih =>
    rw [List.forall_mem_cons] at h
    have hdash : ∀ r, path.toList ≠ '-' :: r := by
      intro r hr
      have hstarts : path.startsWith "-" = true := String.startsWith_string_iff.2 ⟨r, hr.symm⟩
      rw [h.1] at hstarts
      cases hstarts
    rw [parseFrom]
    split
    · next hpath => exact absurd hpath (hdash _)
    · next hpath => exact absurd hpath (hdash _)
    · next hpath => exact absurd hpath (hdash _)
    · rw [ih _ h.2, List.append_assoc, List.singleton_append]

theorem run_of_files (read : Reader) (log : Log) (h : ∀ p ∈ paths, p ≠ "" ∧ p.startsWith "-" = false) :
    run read paths log = generate read paths log := by
  have hparse : parse paths = .ok (.files paths) := by
    rw [parse, parseFrom_of_files [] fun p hp => (h p hp).2, List.nil_append, request, if_neg]
    exact fun hempty => (h "" hempty).1 rfl
  rw [run, hparse]

theorem generate_of_attempts (h : Attempts read .empty paths t fs) (hpaths : paths ≠ []) (log : Log) :
    generate read paths log =
      match (t.generate {}).result with
      | .ok text => { code := 0, out := text, err := progressText log t (parsed read paths) paths.length }
      | .error e =>
        { code := 1, err := progressText log t (parsed read paths) paths.length ++ reasonText e } := by
  have hempty : ¬ paths.isEmpty = true := by simpa using hpaths
  rw [generate, if_neg hempty, ← h.addFiles_eq]
  rfl

/-- without failures there is only the log -/
theorem progressText_of_failures_eq_nil (h : t.failures = []) (log : Log) (parsed : List Event) (files : Nat) :
    progressText log t parsed files =
      log.text 0 (parsed ++ .loaded t.definitions.size files :: t.emission.events.toList) := by
  have hevents : (t.generate {}).events = t.emission.events.toList := by
    rw [Table.generate, if_neg (by simp [Table.failed, h])]
  rw [progressText, h, hevents, Log.text_append, Nat.zero_add]
  exact congrArg (· ++ _) (String.append_empty)

/-- with failures nothing is told of a generation -/
theorem progressText_of_failures (h : t.failures ≠ []) (log : Log) (parsed : List Event) (files : Nat) :
    progressText log t parsed files = log.text 0 parsed ++ failureText t.failures ++
      log.text (log.count parsed) [.loaded t.definitions.size files] := by
  rw [progressText, Table.generate, if_pos (by simpa [Table.failed] using h)]

/-- the last line of a command that refuses files -/
theorem reasonText_inputs (n : Nat) :
    reasonText (.inputs n) = s!"ironxdr: {n} input(s) failed, no code generated\n" := by
  have hend : " input(s) failed, no code generated\n" = " input(s) failed, no code generated" ++ "\n" := by decide
  change "ironxdr: " ++ (toString n ++ " input(s) failed, no code generated") ++ "\n" =
    "ironxdr: " ++ toString n ++ " input(s) failed, no code generated\n"
  rw [hend]
  simp only [String.append_assoc]

end CommandLine

/-! ## The drivers -/

/-- every driver generates this text from the table that the files leave: the library returns it, the command prints it,
and the build leaves it in its file, if it can write there -/
structure Generated (tree : FileTree) (paths : List String) (out : String) (t : Table) (code : String) : Prop where
  library : (generateFiles tree.read paths {}).result = .ok code
  /-- the command writes nothing else but its log: what the library reports, and that the files are loaded -/
  command : ∃ parsed generated, (generateFiles tree.read paths {}).events = parsed ++ generated ∧ ∀ log,
    CommandLine.run tree.read paths log =
      { code := 0, out := code, err := log.text 0 (parsed ++ .loaded t.definitions.size paths.length :: generated) }
  /-- the usual log has a line for each event of the library that matters -/
  usual : ∀ line, CommandLine.run tree.read paths (.usual line) =
    { code := 0, out := code, err := (Log.usual line).text 0 (generateFiles tree.read paths {}).events }
  /-- such an event warns of the bound of a container that leads to no number of 32 bits -/
  warnings : ∀ e ∈ (generateFiles tree.read paths {}).events, e.level ≠ .debug → WarnsOf t t.demands e
  /-- so the usual log is empty where all bounds lead to one -/
  quiet : (∀ c : Container, .container c ∈ t.demands → ¬ t.IsLoose c.bound) → ∀ line,
    CommandLine.run tree.read paths (.usual line) = { code := 0, out := code, err := "" }
  build : ∀ tree', tree.write out code = .ok tree' →
    (compile tree paths out {}).result = .ok () ∧ (compile tree paths out {}).tree.read out = .ok code

/-- every driver refuses: library and build count the failures, the command prints one line for each before the last
one, and the build leaves the files as they are -/
structure Refused (tree : FileTree) (paths : List String) (out : String) (fs : List InputError) : Prop where
  library : (generateFiles tree.read paths {}).result = .error (.inputs fs.length)
  /-- the command writes nothing else but its log, for the files that were read -/
  command : ∃ parsed n, (∀ e ∈ parsed, e.level = .debug) ∧ ∀ log, CommandLine.run tree.read paths log =
    { code := 1, out := "", err := log.text 0 parsed ++ String.join (fs.map fun f => f.message ++ "\n") ++
        log.text (log.count parsed) [.loaded n paths.length] ++
        s!"ironxdr: {fs.length} input(s) failed, no code generated\n" }
  /-- the usual log is empty -/
  usual : ∀ line, CommandLine.run tree.read paths (.usual line) =
    { code := 1, out := "", err := String.join (fs.map fun f => f.message ++ "\n") ++
        s!"ironxdr: {fs.length} input(s) failed, no code generated\n" }
  build : (compile tree paths out {}).result = .error (.inputs fs.length)
  kept : (compile tree paths out {}).tree = tree

section

variable {tree : FileTree} (hpaths : paths ≠ []) (hargs : ∀ p ∈ paths, p ≠ "" ∧ p.startsWith "-" = false)

include hpaths hargs

theorem Attempts.generated (h : Attempts tree.read .empty paths t []) (out : String) :
    Generated tree paths out t (Options.text {} t.emission.fragments.toList) := by
  have hcode := Table.generate_of_failures_eq_nil {} h.failures
  have hlibrary := (h.generateFiles_eq {}).trans hcode
  have hevents := h.events_generateFiles
  have hcommand : ∀ log, CommandLine.run tree.read paths log =
      { code := 0, out := Options.text {} t.emission.fragments.toList, err := log.text 0
          (parsed tree.read paths ++ .loaded t.definitions.size paths.length :: t.emission.events.toList) } := by
    intro log
    rw [CommandLine.run_of_files _ log hargs, CommandLine.generate_of_attempts h hpaths, hcode,
      ← CommandLine.progressText_of_failures_eq_nil h.failures]
  have husual : ∀ line, CommandLine.run tree.read paths (.usual line) =
      { code := 0, out := Options.text {} t.emission.fragments.toList,
        err := (Log.usual line).text 0 (generateFiles tree.read paths {}).events } := by
    intro line
    rw [hcommand, hevents, Log.text_append, Log.text_append,
      Log.text_cons_of_hidden (Log.shows_usual_eq_false_iff.2 rfl)]
  have hwarnings : ∀ e ∈ (generateFiles tree.read paths {}).events, e.level ≠ .debug → WarnsOf t t.demands e := by
    intro e he hlevel
    rw [hevents, List.mem_append] at he
    rcases he with he | he
    · exact absurd (level_of_mem_addFiles he) hlevel
    · exact warnsOf_of_mem_events (Array.mem_toList_iff.1 he) hlevel
  refine ⟨hlibrary, ⟨_, _, hevents, hcommand⟩, husual, hwarnings, fun hbounds line => ?_, fun tree' hwrite => ?_⟩
  · have hhidden : ∀ e ∈ (generateFiles tree.read paths {}).events, (Log.usual line).shows e = false := by
      intro e he
      rw [Log.shows_usual_eq_false_iff]
      by_contra hlevel
      obtain ⟨c, hc, hloose, -⟩ := hwarnings e he hlevel
      exact hbounds c hc hloose
    rw [husual, Log.text_eq_of_hidden hhidden]
  · simp only [compile, hlibrary, hwrite]
    exact ⟨trivial, FileTree.read_of_write hwrite⟩

theorem Attempts.refused (h : Attempts tree.read .empty paths t fs) (hfs : fs ≠ []) (out : String) :
    Refused tree paths out fs := by
  have hfailures : t.failures = fs := h.failures
  have hrefused := Table.generate_of_failures {} (t := t) (by rwa [hfailures])
  rw [hfailures] at hrefused
  have hlibrary := (h.generateFiles_eq {}).trans hrefused
  have hcommand : ∀ log, CommandLine.run tree.read paths log =
      { code := 1, out := "", err := log.text 0 (parsed tree.read paths) ++
          String.join (fs.map fun f => f.message ++ "\n") ++
          log.text (log.count (parsed tree.read paths)) [.loaded t.definitions.size paths.length] ++
          s!"ironxdr: {fs.length} input(s) failed, no code generated\n" } := by
    intro log
    rw [CommandLine.run_of_files _ log hargs, CommandLine.generate_of_attempts h hpaths, hrefused,
      ← CommandLine.reasonText_inputs, CommandLine.progressText_of_failures (by rwa [hfailures]), hfailures]
    rfl
  have hparsed : ∀ e ∈ parsed tree.read paths, e.level = .debug := fun e => level_of_mem_addFiles
  refine ⟨hlibrary, ⟨_, _, hparsed, hcommand⟩, fun line => ?_, ?_, ?_⟩
  · have hhidden : ∀ es : List Event, (∀ e ∈ es, e.level = .debug) → ∀ n, (Log.usual line).text n es = "" :=
      fun es hes n => Log.text_eq_of_hidden fun e he => Log.shows_usual_eq_false_iff.2 (hes e he)
    rw [hcommand, hhidden _ hparsed, hhidden _ (List.forall_mem_singleton.2 rfl), String.empty_append,
      String.append_empty]
  · simp only [compile, hlibrary]
  · simp only [compile, hlibrary]

end

/-- one file gives the same text alone, though its faults are reported in another way -/
theorem generateFile_eq_ok_iff (read : Reader) (path code : String) :
    (generateFile read path).result = .ok code ↔ (generateFiles read [path] {}).result = .ok code := by
  obtain ⟨t, fs, h⟩ := Attempts.exists read .empty [path]
  rw [h.generateFiles_eq {}]
  cases h with
  | added hread hadd h =>
    cases h
    simp only [generateFile, hread, generateSource, hadd]
  | unreadable hread h =>
    have hfailures := h.failures
    rw [Table.generate_of_failures {} (by simp [hfailures, Table.fail])]
    simp only [generateFile, hread, reduceCtorEq]
  | faulty hread hadd h =>
    have hfailures := h.failures
    rw [Table.generate_of_failures {} (by simp [hfailures, Table.fail])]
    simp only [generateFile, hread, generateSource, hadd, reduceCtorEq]

/-- **All drivers agree.** Files are attempted in order. If none of them fails, every driver generates the text of the
table that they leave, and the command writes nothing besides but its log, which has warnings of bounds that lead to no
number and is empty otherwise; if some do, every driver refuses for just these. The build is told to watch each input in
both cases. One file gives the same text alone. -/
theorem drivers_agree (tree : FileTree) {paths : List String} (out : String) (hpaths : paths ≠ [])
    (hargs : ∀ p ∈ paths, p ≠ "" ∧ p.startsWith "-" = false) :
    (∃ t fs, Attempts tree.read .empty paths t fs) ∧
    (∀ t fs, Attempts tree.read .empty paths t fs →
      (fs = [] → Generated tree paths out t (Options.text {} t.emission.fragments.toList)) ∧
      (fs ≠ [] → Refused tree paths out fs)) ∧
    (compile tree paths out {}).printed = String.join (paths.map watchLine) ∧
    ∀ path, paths = [path] → ∀ code, (generateFile tree.read path).result = .ok code ↔
      (generateFiles tree.read paths {}).result = .ok code := by
  refine ⟨Attempts.exists _ _ _, fun t fs h => ⟨?_, fun hfs => h.refused hpaths hargs hfs out⟩, ?_, ?_⟩
  · rintro rfl
    exact h.generated hpaths hargs out
  · unfold compile
    dsimp only
    split
    · rfl
    · split <;> rfl
  · rintro path rfl code
    exact generateFile_eq_ok_iff tree.read path code

/-- a constant in a file -/
def constA : Definition := .const "A" "1"

def treeA : FileTree := { entries := [(["a.x"], .file "const A = 1;".toUTF8)] }

/-- a file that is generated alone, into itself, and refused beside a missing file and when it is listed twice -/
theorem drivers_agree_listed_twice :
    Generated treeA ["a.x"] "a.x" (Table.empty.extend constA)
      (Options.text {} (Table.empty.extend constA).emission.fragments.toList) ∧
    (compile treeA ["a.x"] "a.x" {}).result = .ok () ∧
    Refused treeA ["a.x", "b.x", "a.x"] "a.x"
      [.unreadable "b.x" .notFound, .faulty (some "a.x") (.clash (.name "A"))] := by
  have hread : treeA.read "a.x" = .ok "const A = 1;" := by cbv
  have hmissing : treeA.read "b.x" = .error .notFound := by cbv
  have hparse : ((scan "const A = 1;").bind fun s => Grammar.parse s.tokens) = .ok [constA] := by cbv
  have hadd : Table.empty.addSource "const A = 1;" = (Table.empty.extend constA, .ok 1) := by
    have hinsert : Table.empty.insertAll [constA] = (Table.empty.extend constA, none) :=
      Table.insertAll_of_nodup (List.forall_mem_singleton.2 rfl) (List.forall_mem_singleton.2 rfl) (by simp)
        (by simp [Table.isDefined, Table.empty])
    rw [Table.addSource_of_parse hparse, hinsert]
    rfl
  have hagain : ∀ e, ((Table.empty.extend constA).fail e).1.addSource "const A = 1;" =
      (((Table.empty.extend constA).fail e).1, .error (.clash (.name "A"))) := by
    intro e
    rw [Table.addSource_of_parse hparse]
    simp [Table.insertAll, Table.insert, Table.fail, Table.isDefined, Table.extend, constA, Definition.validate,
      Definition.id, throw, throwThe, MonadExceptOf.throw, bind, Except.bind]
  have hfile : treeA.find? ["a.x"] = some (.file "const A = 1;".toUTF8) := by cbv
  have hwalk : treeA.walk (treeA.start "a.x") (FileTree.namesOf "a.x") = .ok ["a.x"] := by cbv
  have hwrite : ∀ text, treeA.write "a.x" text = .ok (treeA.put ["a.x"] text.toUTF8) := fun text =>
    FileTree.write_eq_ok_iff.2 ⟨by cbv, by cbv, ["a.x"], hwalk, by simp [hfile], rfl⟩
  have ha : "a.x" ≠ "" ∧ "a.x".startsWith "-" = false := ⟨by decide, by cbv⟩
  have hb : "b.x" ≠ "" ∧ "b.x".startsWith "-" = false := ⟨by decide, by cbv⟩
  have halone := drivers_agree treeA "a.x" (List.cons_ne_nil "a.x" []) (List.forall_mem_singleton.2 ha)
  have htwice := drivers_agree treeA "a.x" (List.cons_ne_nil "a.x" ["b.x", "a.x"])
    (List.forall_mem_cons.2 ⟨ha, List.forall_mem_cons.2 ⟨hb, List.forall_mem_singleton.2 ha⟩⟩)
  have hgenerated := (halone.2.1 _ _ (.added hread hadd (.nil _))).1 rfl
  exact ⟨hgenerated, (hgenerated.build _ (hwrite _)).1,
    (htwice.2.1 _ _ (.added hread hadd (.unreadable hmissing (.faulty hread (hagain _) (.nil _))))).2
      (List.cons_ne_nil _ _)⟩

/-- a string whose bound is no number -/
def looseString : Definition := .typedef { id := "S", typeName := "string", bound := "FOO" }

def looseTree : FileTree := { entries := [(["a.x"], .file "typedef string S<FOO>;".toUTF8)] }

theorem events_looseString {t : Table} (hbound : t.bound "FOO" = .verbatim "FOO") :
    (looseString.emit t {}).2.events.toList =
      [.looseBound "FOO", .materialized (t.wrapperName "string" "FOO") "FOO", .generated "typedef" "S"] := by
  simp [looseString, Definition.emit, Definition.emitAs, Decl.typeAs, Definition.id, run_bind, run_map, run_claim,
    run_push, Emission.run_report, Table.typeOf, Table.isBounded, Primitive.idlName, Table.boundOf, hbound,
    Bound.text?, Table.materialize]

/-- **The command gives its text and writes to standard error all the same.** A file with a bound that is no number is
generated, and the usual log has a line for the bound. -/
theorem warned_with_text : ∃ code, (generateFiles looseTree.read ["a.x"] {}).result = .ok code ∧
    (∀ line, CommandLine.run looseTree.read ["a.x"] (.usual line) =
      { code := 0, out := code, err := line 0 (.looseBound "FOO") }) ∧
    CommandLine.run looseTree.read ["a.x"] (.usual fun _ e => e.line ++ "\n") =
      { code := 0, out := code, err := "WARN Bound 'FOO' does not resolve to a 32-bit integer\n" } := by
  have hread : looseTree.read "a.x" = .ok "typedef string S<FOO>;" := by cbv
  have hparse : ((scan "typedef string S<FOO>;").bind fun s => Grammar.parse s.tokens) = .ok [looseString] := by cbv
  obtain ⟨t, hadd, ht, hds⟩ := exists_table_of_parse hparse (by decide)
  have hbound : t.bound "FOO" = .verbatim "FOO" := by
    rw [Table.bound, ht.integer?_eq_listed hds, ht.resolve_eq_listed hds]
    decide
  have hattempts : Attempts looseTree.read .empty ["a.x"] t [] := .added hread hadd (.nil t)
  have hgenerated := hattempts.generated (List.cons_ne_nil _ _) (List.forall_mem_singleton.2 ⟨by decide, by cbv⟩) "out"
  have hevents : (generateFiles looseTree.read ["a.x"] {}).events = .parsed "a.x" 1 ::
      [.looseBound "FOO", .materialized (t.wrapperName "string" "FOO") "FOO", .generated "typedef" "S"] := by
    have hparsed : parsed looseTree.read ["a.x"] = [.parsed "a.x" 1] := by
      simp [parsed, Table.addFiles, Table.addFile_of_addSource hread hadd]
    rw [hattempts.events_generateFiles, hparsed, Table.emission, Table.emit, hds, ← events_looseString hbound]
    rfl
  have hrun := hgenerated.usual
  simp only [hevents] at hrun
  exact ⟨_, hgenerated.library, hrun, hrun _⟩

end Xdr
