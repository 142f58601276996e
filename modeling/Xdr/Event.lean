/-
Events that are reported along the way, as diagnostic lines: a level and a message.

A log shows some of the events, each as a line of its own. The lines depend on more than the events, for example on the
time, so a log is told which of its lines it writes.
-/
import Xdr.Error

namespace Xdr

/-- how much an event matters -/
inductive Level where
  | debug | warn | error
deriving DecidableEq, Repr

namespace Level

def text : Level → String
  | debug => "DEBUG"
  | warn => "WARN"
  | error => "ERROR"

def rank : Level → Nat
  | debug => 0
  | warn => 1
  | error => 2

end Level

inductive Event where
  /-- an input was read and all its definitions were added -/
  | parsed (path : String) (definitions : Nat)
  /-- all inputs of a command were read -/
  | loaded (definitions files : Nat)
  /-- an input failed -/
  | failed (cause : InputError)
  /-- a definition was generated -/
  | generated (kind name : String)
  /-- a bounded container was generated -/
  | materialized (name bound : String)
  /-- a program, for which nothing is generated -/
  | skipped (program : String)
  /-- a bound that is passed on as it was written -/
  | looseBound (expr : String)
deriving DecidableEq, Repr

namespace Event

def level : Event → Level
  | parsed .. | loaded .. | generated .. | materialized .. | skipped _ => .debug
  | failed _ => .error
  | looseBound _ => .warn

def message : Event → String
  | parsed path n => s!"Parsed {path} with {n} definitions"
  | loaded n k => s!"Loaded {n} definitions from {k} files"
  | failed e => e.message
  | generated kind name => s!"Generated {kind} {name}"
  | materialized name bound => s!"Materialized {name} with bound {bound}"
  | skipped p => s!"Skipping program {p}"
  | looseBound e => s!"Bound '{e}' does not resolve to a 32-bit integer"

def line (e : Event) : String := s!"{e.level.text} {e.message}"

end Event

/-! ## Logs -/

/-- which events are shown, and the text of the n-th line if it is for that event -/
structure Log where
  shows : Event → Bool
  line : Nat → Event → String

namespace Log

/-- a log that shows nothing -/
def off : Log := { shows := fun _ => false, line := fun _ _ => "" }

/-- the log that shows events from a level on -/
def atLeast (least : Level) (line : Nat → Event → String) : Log :=
  { shows := fun e => least.rank ≤ e.level.rank, line }

/-- the log where nothing else is asked for: it shows warnings and errors -/
def usual (line : Nat → Event → String) : Log := .atLeast .warn line

/-- the lines for events, behind so many lines -/
def text (log : Log) (before : Nat) (events : List Event) : String :=
  String.join (((events.filter log.shows).zipIdx before).map fun (e, n) => log.line n e)

/-- the number of lines for events -/
def count (log : Log) (events : List Event) : Nat := (events.filter log.shows).length

end Log

end Xdr
