/-
From sources to generated text.

Inputs share one table. `Table.generate` writes a table that has no failures: a preamble, if it is wanted, and the
fragments in the order of generation, with an empty line between. A table with a failed input generates nothing.
-/
import Xdr.Emission

namespace Xdr

structure Options where
  /-- the path that the preamble imports from -/
  runtime : String := "ironxdr_core"
  preamble : Bool := true
deriving DecidableEq, Repr

namespace Options

def preambleText (o : Options) : String :=
  "// Code generated by ironxdr. DO NOT EDIT.\n\n#[allow(unused_imports)]\n" ++ s!"use {o.runtime}::prelude::*;\n"

/-- the parts of the generated text, in order -/
def parts (o : Options) (fragments : List Code.Fragment) : List String :=
  (if o.preamble then [o.preambleText] else []) ++ fragments.map Code.Fragment.text

def text (o : Options) (fragments : List Code.Fragment) : String := "\n".intercalate (o.parts fragments)

end Options

/-- generated text or the reason for none, and what was reported on the way -/
structure Outcome where
  result : Except GenerateError String
  events : List Event := []

/-- reads a file as text -/
abbrev Reader := String → Except FileError String

namespace Table

def generate (t : Table) (o : Options) : Outcome :=
  if t.failed then { result := .error (.inputs t.failures.length) }
  else { result := .ok (o.text t.emission.fragments.toList), events := t.emission.events.toList }

/-- adds the definitions of one file, or remembers its failure -/
def addFile (read : Reader) (t : Table) (path : String) : Table × List Event :=
  match t.addInput path (read path) with
  | (t', .ok n) => (t', [.parsed path n])
  | (t', .error _) => (t', [])

/-- adds files in order; none is left out because of another's failure -/
def addFiles (read : Reader) (t : Table) : List String → Table × List Event
  | [] => (t, [])
  | p :: ps =>
    let (t', es) := t.addFile read p
    let (t'', es') := t'.addFiles read ps
    (t'', es ++ es')

end Table

/-- generates from one source text -/
def generateSource (source : String) : Outcome :=
  match Table.empty.addSource source with
  | (t, .ok _) => t.generate {}
  | (_, .error e) => { result := .error (.source e) }

/-- generates from one file -/
def generateFile (read : Reader) (path : String) : Outcome :=
  match read path with
  | .ok source => generateSource source
  | .error e => { result := .error (.file e) }

/-- generates from several files; each failure is reported -/
def generateFiles (read : Reader) (paths : List String) (o : Options) : Outcome :=
  let (t, es) := Table.empty.addFiles read paths
  let out := t.generate o
  { out with events := es ++ t.failures.map Event.failed ++ out.events }

end Xdr
