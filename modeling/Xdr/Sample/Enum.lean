/-
Enums and constants of the sample schema:

    const MAX_NAME = 32;
    const LIMIT = MAX_NAME;
    const UNBOUNDED_LEN = 0xffffffff;
    const KEY_LEN = 4;

    enum Color { RED = 0, GREEN = 1 };

    typedef enum { ON = 1, OFF = 0 } Switch;
    const DEFAULT_SWITCH = ON;
-/
import Xdr.Value.Enum

namespace Xdr.Sample

def colorType : EnumType := ⟨"Color", [(0, "RED"), (1, "GREEN")]⟩

abbrev Color := EnumValue colorType

def red : Color := ⟨0⟩

def green : Color := ⟨1⟩

/-- an enum without a name of its own, named by the typedef around it -/
def switchType : EnumType := ⟨"_Switch", [(1, "ON"), (0, "OFF")]⟩

abbrev Switch := EnumValue switchType

def on : Switch := ⟨1⟩

def off : Switch := ⟨0⟩

def maxName : Int32 := 32

def limit : Int32 := maxName

def unboundedLength : UInt32 := 0xFFFFFFFF

def keyLength : Int32 := 4

def defaultSwitch : Switch := on

end Xdr.Sample
