/-
The command `ironxdr`: files on the command line, generated text on standard output.

`parse` reads the arguments from left to right and stops at the first flag it knows, or at the first argument it
refuses. `run` is the whole command: an exit status and two texts. If a file fails, every failure is printed and no
text is generated; without files there is nothing to generate. The log goes to standard error as well, in between.
-/
import Xdr.Generate
import Xdr.Text.Terminal

namespace Xdr.CommandLine

/-! ## Texts -/

/-- the line on usage, with the flag it is about; files are in brackets as long as none is given -/
def usage (flag : Option String) (givenFiles : Bool) : String :=
  let files := if givenFiles then "<FILES>..." else "[FILES]..."
  match flag with
  | some f => s!"Usage: ironxdr {f} {files}"
  | none => s!"Usage: ironxdr {files}"

def helpText : String :=
  "Command-line XDR (RFC 4506) to Rust code generator\n\n" ++ usage none false ++ "\n\n" ++
  "Arguments:\n  [FILES]...  XDR source files, sharing one namespace\n\n" ++
  "Options:\n  -h, --help     Print help\n  -V, --version  Print version\n"

def versionText : String := "ironxdr-cli 0.3.0\n"

/-! ## Similar names -/

/-- takes the first equal element out of the marked list, if it stands within the window around `i` -/
def claimNear (c : Char) (lo hi : Nat) (marked : List (Char × Bool)) : Option (List (Char × Bool)) :=
  match marked.zipIdx.find? fun ((d, taken), j) => lo ≤ j && j < hi && d == c && !taken with
  | some (_, j) => some (marked.modify j fun m => (m.1, true))
  | none => none

/-- the characters of `cs`, from position `i` on, that have partners in the marked list; and the marks afterwards -/
def partners (window : Nat) : Nat → List Char → List (Char × Bool) → List Char × List (Char × Bool)
  | _, [], marked => ([], marked)
  | i, c :: cs, marked =>
    match claimNear c (i - window) (i + window + 1) marked with
    | some marked' =>
      let (ps, m) := partners window (i + 1) cs marked'
      (c :: ps, m)
    | none => partners window (i + 1) cs marked

/-- the Jaro similarity of two texts: the mean of the parts that have partners, and of those in the same order -/
def similarity (a b : String) : Float :=
  let (ps, marked) := partners (max a.length b.length / 2 - 1) 0 a.toList (b.toList.map fun c => (c, false))
  let qs := (marked.filter Prod.snd).map Prod.fst
  let swapped := ((ps.zip qs).filter fun p => p.1 != p.2).length / 2
  let k := ps.length.toFloat
  if ps.isEmpty then 0 else (k / a.length.toFloat + k / b.length.toFloat + (k - swapped.toFloat) / k) / 3

/-- the most similar of the known names, if it is above seven tenths; the later one of two that are equally similar -/
def closest (known : List String) (name : String) : Option String :=
  (known.filter (0.7 < similarity name ·)).foldl
    (fun best next => match best with
      | some b => if similarity name next < similarity name b then some b else some next
      | none => some next) none

/-! ## Arguments -/

inductive Request where
  | help
  | version
  | files (paths : List String)
deriving DecidableEq, Repr

inductive UsageError where
  /-- an unknown flag, with the flag it resembles, and whether it is a long one behind files -/
  | unknown (flag : String) (similar : Option String) (givenFiles : Bool)
  /-- a value behind a flag that takes none -/
  | extraValue (flag value : String)
  /-- an empty argument in the place of a file -/
  | emptyFile
deriving DecidableEq, Repr

/-- the lines for an error; of what the user wrote they hold the visible part -/
def UsageError.message : UsageError → String
  | .unknown flag similar givenFiles =>
    let written := Text.Terminal.visible flag
    let tip := match similar with
      | some known => s!"a similar argument exists: '{known}'"
      | none => s!"to pass '{written}' as a value, use '-- {written}'"
    s!"error: unexpected argument '{written}' found\n\n  tip: {tip}\n\n" ++
      s!"{usage similar givenFiles}\n\nFor more information, try '--help'.\n"
  | .extraValue flag value =>
    s!"error: unexpected value '{Text.Terminal.visible value}' for '{flag}' found; no more were expected\n\n" ++
      s!"{usage (some flag) false}\n\nFor more information, try '--help'.\n"
  | .emptyFile =>
    "error: a value is required for '[FILES]...' but none was supplied\n\nFor more information, try '--help'.\n"

/-- the request behind a flag with two dashes; `files` are the arguments before it -/
def longFlag (files : List String) (text : String) : Except UsageError Request :=
  let name := String.ofList (text.toList.takeWhile (· ≠ '='))
  let value := if text.contains '=' then some (String.ofList ((text.toList.dropWhile (· ≠ '=')).drop 1)) else none
  let request := match name with
    | "help" => some Request.help
    | "version" => some .version
    | _ => none
  match request, value with
  | some _, some v => .error (.extraValue ("--" ++ name) v)
  | some r, none => if "" ∈ files then .error .emptyFile else .ok r
  | none, _ =>
    .error (.unknown ("--" ++ name) ((closest ["help", "version"] name).map ("--" ++ ·)) (!files.isEmpty))

/-- the request behind a flag with one dash; the first letter decides -/
def shortFlag (files : List String) (letter : Char) : Except UsageError Request :=
  let request := match letter with
    | 'h' => some Request.help
    | 'V' => some .version
    | _ => none
  match request with
  | some r => if "" ∈ files then .error .emptyFile else .ok r
  | none => .error (.unknown ("-" ++ letter.toString) none false)

/-- what files are asked for -/
def request (files : List String) : Except UsageError Request :=
  if "" ∈ files then .error .emptyFile else .ok (.files files)

/-- reads the arguments behind those that are `files` -/
def parseFrom (files : List String) : List String → Except UsageError Request
  | [] => request files
  | arg :: rest =>
    match arg.toList with
    | ['-', '-'] => request (files ++ rest)
    | '-' :: '-' :: text => longFlag files (String.ofList text)
    | '-' :: letter :: _ => shortFlag files letter
    | _ => parseFrom (files ++ [arg]) rest

def parse (args : List String) : Except UsageError Request := parseFrom [] args

/-! ## The command -/

structure Exit where
  code : UInt32
  out : String := ""
  err : String := ""
deriving DecidableEq, Repr

/-- a line for each failure -/
def failureText (failures : List InputError) : String := String.join (failures.map fun f => f.message ++ "\n")

/-- the last line when nothing is generated -/
def reasonText (e : GenerateError) : String := s!"ironxdr: {e.message}\n"

/-- the lines on the way: the failures stand between those of the log for the inputs and for what is generated -/
def progressText (log : Log) (t : Table) (parsed : List Event) (files : Nat) : String :=
  log.text 0 parsed ++ failureText t.failures ++
    log.text (log.count parsed) (.loaded t.definitions.size files :: (t.generate {}).events)

/-- generates for files -/
def generate (read : Reader) (paths : List String) (log : Log) : Exit :=
  if paths.isEmpty then { code := 0 }
  else
    let (t, parsed) := Table.empty.addFiles read paths
    let err := progressText log t parsed paths.length
    match (t.generate {}).result with
    | .ok text => { code := 0, out := text, err }
    | .error e => { code := 1, err := err ++ reasonText e }

/-- the whole command; it is quiet unless it has a log -/
def run (read : Reader) (args : List String) (log : Log := .off) : Exit :=
  match parse args with
  | .error e => { code := 2, err := e.message }
  | .ok .help => { code := 0, out := helpText }
  | .ok .version => { code := 0, out := versionText }
  | .ok (.files paths) => generate read paths log

end Xdr.CommandLine
