/-
Why a value refuses new contents. A refusal leaves the value as it was.
-/
import Xdr.Text.Utf8

namespace Xdr

inductive ValueError where
  | tooLong (length bound : Nat)
  /-- a word that is neither false nor true -/
  | notBool (word : UInt32)
  | notText (fault : Text.Utf8.Fault)
deriving DecidableEq, Repr

def ValueError.message : ValueError → String
  | .tooLong length bound => s!"length {length} exceeds bound {bound}"
  | .notBool word => s!"bool must be 0 or 1, got {word}"
  | .notText fault => s!"invalid UTF-8 in string: {fault.message}"

/-- the value after an attempt to change it, and how the attempt went -/
def settle {ε α : Type} (old : α) : Except ε α → α × Except ε Unit
  | .ok new => (new, .ok ())
  | .error e => (old, .error e)

end Xdr
