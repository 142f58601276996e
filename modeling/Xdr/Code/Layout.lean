/-
Lines of generated text.

A block is a head, an indented body and a closing bracket. Depth belongs to a line that holds code; an empty line has
none, at any nesting. The text of a layout ends each line with a line feed.
-/
namespace Xdr.Code

inductive Line where
  | blank
  | code (depth : Nat) (text : String)
deriving DecidableEq, Repr

abbrev Layout := List Line

namespace Layout

def line (text : String) : Line := .code 0 text

def lines (texts : List String) : Layout := texts.map line

/-- one level deeper -/
def indent (l : Layout) : Layout := l.map fun
  | .blank => .blank
  | .code depth text => .code (depth + 1) text

/-- a body between an opening line and a closing line -/
def enclose (first last : String) (body : Layout) : Layout := line first :: indent body ++ [line last]

/-- a body in braces behind its head -/
def block (head : String) (body : Layout) : Layout := enclose (head ++ " \x7b") "\x7d" body

/-- parts with an empty line between them -/
def spaced : List Layout → Layout
  | [] => []
  | [p] => p
  | p :: ps => p ++ .blank :: spaced ps

def indentation (depth : Nat) : String := String.ofList (List.replicate (4 * depth) ' ')

def lineText : Line → String
  | .blank => ""
  | .code depth text => indentation depth ++ text

def text (l : Layout) : String := String.join (l.map fun x => lineText x ++ "\n")

end Layout

end Xdr.Code
