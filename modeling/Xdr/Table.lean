/-
The symbol table: every definition of every input in one namespace.

`definitions` holds them in the order of discovery, `index` finds one by name, and `tags` names the enum of every enum
tag, tags of inline enums included. Names and tags share one namespace. An input that fails is remembered in
`failures`; what it defined before the fault stays.
-/
import Std.Data.HashMap
import Xdr.Schema.Grammar
import Xdr.Schema.Naming
import Xdr.Schema.Valid
import Xdr.Token.Scan

namespace Xdr

/-! ## Tags of a definition -/

mutual

/-- the tags that a definition brings when it is generated under `name`, each with the name of its enum -/
def Definition.tagsAs (name : String) : Definition → List (String × String)
  | .enum _ tags => tags.map fun t => (t.id, name)
  | .typedef d => d.tagsAs (underscored name)
  | .struct _ fields => fieldTags name fields
  | .union _ _ _ arms _ => armTags name arms
  | .const .. => []
  | .program _ => []

/-- the tags of an inline body that is generated under `name` -/
def Decl.tagsAs (name : String) : Decl → List (String × String)
  | ⟨_, _, _, _, none⟩ => []
  | ⟨_, _, _, _, some b⟩ => b.tagsAs name

def fieldTags (parent : String) : List Decl → List (String × String)
  | [] => []
  | d :: ds => d.tagsAs (memberTypeName parent d.id) ++ fieldTags parent ds

def armTags (parent : String) : List Arm → List (String × String)
  | [] => []
  | ⟨_, _, d⟩ :: as => d.tagsAs (memberTypeName parent d.id) ++ armTags parent as

end

/-- every tag that a definition brings, with the name of its enum -/
def Definition.tags (d : Definition) : List (String × String) := d.tagsAs d.id

/-! ## The table -/

structure Table where
  definitions : Array Definition := #[]
  index : Std.HashMap String Nat := {}
  tags : Std.HashMap String String := {}
  failures : List InputError := []

namespace Table

def empty : Table := {}

def get? (t : Table) (id : String) : Option Definition := t.index[id]?.bind fun i => t.definitions[i]?

/-- the enum that defines a tag -/
def enumOf? (t : Table) (tag : String) : Option String := t.tags[tag]?

def isDefined (t : Table) (name : String) : Bool := t.index.contains name || t.tags.contains name

def failed (t : Table) : Bool := !t.failures.isEmpty

/-- the first of the tags that is taken: by the table, by the definition itself, or by a tag before it -/
def firstTaken (t : Table) (id : String) (seen : List String) : List String → Option String
  | [] => none
  | tag :: rest =>
    if t.isDefined tag || tag == id || seen.contains tag then some tag else t.firstTaken id (tag :: seen) rest

/-- adds a definition that is valid and clashes with nothing in the table -/
def insert (t : Table) (d : Definition) : Except Clash Table := do
  d.validate
  if t.isDefined d.id then throw (.name d.id)
  match t.firstTaken d.id [] (d.tags.map Prod.fst) with
  | some tag => throw (.name tag)
  | none =>
    return { t with
      definitions := t.definitions.push d
      index := t.index.insert d.id t.definitions.size
      tags := d.tags.foldl (fun m p => m.insert p.1 p.2) t.tags }

/-- adds definitions in order, up to the first that clashes -/
def insertAll (t : Table) : List Definition → Table × Option Clash
  | [] => (t, none)
  | d :: ds =>
    match t.insert d with
    | .ok t' => t'.insertAll ds
    | .error c => (t, some c)

/-- adds the definitions of a source; a faulty text adds nothing, a clash keeps the definitions before it -/
def addSource (t : Table) (source : String) : Table × Except SourceError Nat :=
  match (scan source).bind fun s => Grammar.parse s.tokens with
  | .error e => (t, .error e)
  | .ok ds =>
    match t.insertAll ds with
    | (t', none) => (t', .ok ds.length)
    | (t', some c) => (t', .error (.clash c))

/-- remembers a failure -/
def fail (t : Table) (e : InputError) : Table × Except InputError Nat :=
  ({ t with failures := t.failures ++ [e] }, .error e)

/-- adds the definitions of a file that was read with this result; a failure is remembered under the file's path -/
def addInput (t : Table) (path : String) : Except FileError String → Table × Except InputError Nat
  | .error e => t.fail (.unreadable path e)
  | .ok source =>
    match t.addSource source with
    | (t', .ok n) => (t', .ok n)
    | (t', .error e) => t'.fail ((InputError.faulty none e).inFile path)

end Table

end Xdr
