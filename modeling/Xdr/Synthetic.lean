/-
Schemas of any size, for measurements.

A schema is made of numbered groups: a constant, a string type bounded by it, an enum, a struct with a vector bounded by
the constant, and a union that switches on the enum. The struct of a group points to the struct of the group before.
-/
namespace Xdr.Synthetic

/-- the lines of one group -/
def group (i : Nat) : List String :=
  [s!"const MAX_{i} = {16 + i};",
    s!"typedef string Name{i}<MAX_{i}>;",
    s!"enum Kind{i} \x7b K{i}_A = 0, K{i}_B = 1, K{i}_C = 2 \x7d;",
    s!"struct Item{i} \x7b",
    s!"    Name{i} name;",
    "    unsigned hyper id;",
    "    opaque digest[32];",
    s!"    int values<MAX_{i}>;"] ++
  (if i > 0 then [s!"    Item{i - 1} *prev;"] else []) ++
  ["\x7d;",
    s!"union Body{i} switch (Kind{i} kind) \x7b",
    s!"case K{i}_A:",
    s!"    Item{i} item;",
    s!"case K{i}_B:",
    s!"case K{i}_C:",
    "    double weight;",
    "default:",
    "    void;",
    "\x7d;"]

def schema (groups : Nat) : String := String.join (((List.range groups).flatMap group).map (· ++ "\n"))

end Xdr.Synthetic
