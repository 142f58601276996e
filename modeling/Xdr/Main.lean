/-
The program: reads the files that the arguments name, and prints what the command answers.
-/
import Xdr.CommandLine

namespace Xdr

/-- the reason in a refusal of the system -/
def FileError.ofSystem : IO.Error → FileError
  | .noFileOrDirectory .. => .notFound
  | .inappropriateType _ 20 _ => .notDirectory
  | .inappropriateType _ 21 _ => .isDirectory
  | e => .other (toString e)

/-- reads one file of the system -/
def readFile (path : String) : IO (Except FileError String) := do
  try
    match String.fromUTF8? (← IO.FS.readBinFile path) with
    | some text => return .ok text
    | none => return .error .notText
  catch e => return .error (.ofSystem e)

/-- the log that a variable asks for by the name of a level -/
def Log.ofVariable (value : Option String) : Log :=
  let line := fun (_ : Nat) (e : Event) => e.line ++ "\n"
  match value with
  | some "off" => .off
  | some "error" => .atLeast .error line
  | some "debug" | some "trace" => .atLeast .debug line
  | _ => .usual line

end Xdr

def main (args : List String) : IO UInt32 := do
  let paths := match Xdr.CommandLine.parse args with
    | .ok (.files paths) => paths
    | _ => []
  let contents ← paths.mapM fun p => return (p, ← Xdr.readFile p)
  let log := Xdr.Log.ofVariable (← IO.getEnv "RUST_LOG")
  let exit := Xdr.CommandLine.run (fun p => (contents.lookup p).getD (.error .notFound)) args log
  (← IO.getStdout).putStr exit.out
  (← IO.getStderr).putStr exit.err
  return exit.code
