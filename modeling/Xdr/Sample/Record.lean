/-
Structures of the sample schema:

    typedef opaque Key[KEY_LEN];
    typedef opaque AnyBlob<UNBOUNDED_LEN>;

    struct Node { int value; Node *next; };

    struct Record {
        Name name;
        Key key;
        Blob blob;
        AnyBlob payload;
        int scores<3>;
        unsigned hyper big;
        float ratio;
        bool active;
        int type;
        struct { int x; int y; } position;
        union switch (Color kind) { case RED: int r; default: void; } extra;
    };
-/
import Xdr.Sample.Union

namespace Xdr.Sample

/-! ## Chains of nodes -/

/-- a node, and the chain behind it -/
inductive Node where
  | mk (value : Int32) (next : Option Node)

namespace Node

/-- the chain of nodes with those values -/
def ofValues : List Int32 → Option Node
  | [] => none
  | v :: vs => some (mk v (ofValues vs))

def shownNode : Node → String
  | mk value none => shownFields "Node" [("value", shown value), ("next", "None")]
  | mk value (some next) =>
    shownFields "Node" [("value", shown value), ("next", shownTagged "Some" next.shownNode)]

end Node

instance : Shown Node := ⟨Node.shownNode⟩

/-! ## Records -/

structure Position where
  x : Int32 := 0
  y : Int32 := 0
deriving DecidableEq, Repr

instance : Shown Position := ⟨fun p => shownFields "_Record_position" [("x", shown p.x), ("y", shown p.y)]⟩

structure Record where
  name : Name := {}
  key : FixedBytes 4 := {}
  blob : Blob := {}
  payload : List UInt8 := []
  scores : BoundedVec 3 := {}
  big : UInt64 := 0
  ratio : Single := {}
  active : Bool := false
  type : Int32 := 0
  position : Position := {}
  extra : Extra := { tag := {} }
deriving BEq

instance : Shown Record := ⟨fun r => shownFields "Record" [
  ("name", shown r.name), ("key", shown r.key), ("blob", shown r.blob), ("payload", shown r.payload),
  ("scores", shown r.scores), ("big", shown r.big), ("ratio", shown r.ratio), ("active", shown r.active),
  ("type", shown r.type), ("position", shown r.position), ("extra", shown r.extra)]⟩

end Xdr.Sample
