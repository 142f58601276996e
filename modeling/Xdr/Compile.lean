/-
Generation into a file, as a step of a build.

Each input is announced to the build, whatever becomes of it. The file is written only if every input was accepted.
-/
import Xdr.FileTree
import Xdr.Generate

namespace Xdr

structure Compilation where
  result : Except GenerateError Unit
  /-- what the build is told -/
  printed : String
  /-- the files afterwards -/
  tree : FileTree
  events : List Event

/-- the line that makes the build watch an input -/
def watchLine (input : String) : String := s!"cargo:rerun-if-changed={input}\n"

def compile (tree : FileTree) (inputs : List String) (out : String) (o : Options) : Compilation :=
  let printed := String.join (inputs.map watchLine)
  let generated := generateFiles tree.read inputs o
  match generated.result with
  | .error e => { result := .error e, printed, tree, events := generated.events }
  | .ok text =>
    match tree.write out text with
    | .error e => { result := .error (.file e), printed, tree, events := generated.events }
    | .ok tree' => { result := .ok (), printed, tree := tree', events := generated.events }

end Xdr
