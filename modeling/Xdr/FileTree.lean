/-
A tree of files and directories, as a value, with paths into it.

An entry is found under the list of names that lead to it from the root; the directories on the way need no entries of
their own. A relative path starts at the working directory. `.` stays where it is, `..` goes up and stays at the root,
empty names do not count, and a path with a slash at its end has to lead to a directory.
-/
import Xdr.Error

namespace Xdr

inductive FileEntry where
  | file (content : ByteArray)
  | directory

structure FileTree where
  entries : List (List String × FileEntry) := []
  workingDirectory : List String := []

namespace FileTree

/-- what stands under a list of names -/
def find? (t : FileTree) (names : List String) : Option FileEntry :=
  match t.entries.lookup names with
  | some e => some e
  | none =>
    if names.isPrefixOf t.workingDirectory || t.entries.any (fun e => names.isPrefixOf e.1) then some .directory
    else none

/-! ## Paths -/

/-- a path with more bytes than this, or with a name of more bytes than that, is refused -/
def maxPath : Nat := 4095

def maxName : Nat := 255

/-- the names along a path -/
def namesOf (path : String) : List String := (path.splitOn "/").filter (· ≠ "")

/-- asks for a directory -/
def endsInSlash (path : String) : Bool := path.endsWith "/"

/-- the directory that a path starts from -/
def start (t : FileTree) (path : String) : List String := if path.startsWith "/" then [] else t.workingDirectory

/-- the refusals that do not depend on the tree -/
def checkPath (path : String) : Except FileError Unit :=
  if path.contains '\x00' then .error .nulInPath
  else if path = "" then .error .notFound
  else if path.utf8ByteSize > maxPath then .error .nameTooLong
  else .ok ()

/-- where one name leads from a place -/
def step (t : FileTree) (place : List String) (name : String) : Except FileError (List String) :=
  match t.find? place with
  | none => .error .notFound
  | some (.file _) => .error .notDirectory
  | some .directory =>
    if name = "." then .ok place
    else if name = ".." then .ok place.dropLast
    else if name.utf8ByteSize > maxName then .error .nameTooLong
    else .ok (place ++ [name])

/-- where names lead from a place; the last place need not exist -/
def walk (t : FileTree) (place : List String) : List String → Except FileError (List String)
  | [] => .ok place
  | n :: ns => do t.walk (← t.step place n) ns

/-! ## Reading and writing -/

def read (t : FileTree) (path : String) : Except FileError String := do
  checkPath path
  let names := namesOf path ++ if endsInSlash path then ["."] else []
  match t.find? (← t.walk (t.start path) names) with
  | none => throw .notFound
  | some .directory => throw .isDirectory
  | some (.file content) =>
    match String.fromUTF8? content with
    | some text => return text
    | none => throw .notText

/-- makes a file of that content, or replaces the content of the file that is there -/
def write (t : FileTree) (path content : String) : Except FileError FileTree := do
  checkPath path
  let place ← t.walk (t.start path) (namesOf path)
  if endsInSlash path then throw .isDirectory
  match t.find? place with
  | some .directory => throw .isDirectory
  | _ => return { t with entries := (place, .file content.toUTF8) :: t.entries.filter (·.1 ≠ place) }

end FileTree

end Xdr
