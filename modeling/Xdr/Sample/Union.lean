/-
Unions of the sample schema:

    typedef string Name<LIMIT>;
    typedef opaque Blob<16>;
    typedef int Tag;

    struct A { int a; };
    struct B { hyper b; };
    struct C { Name c; };

    union U switch (Tag t) { case 1: A a; case 2: B b; default: C c; };
    union Strict switch (int t) { case 1: case 2: int small; case 3: void; };
    union Maybe switch (bool present) { case TRUE: Color color; case FALSE: void; };
    union Paint switch (Color color) { case RED: unsigned int red_level; case GREEN: double green_level; };

The last is part of a record:

    union switch (Color kind) { case RED: int r; default: void; } extra;
-/
import Xdr.Code.Reading
import Xdr.Sample.Enum
import Xdr.Value.Container

namespace Xdr.Sample

open Code

/-! ## Parts -/

abbrev Name := BoundedBytes .text 32

abbrev Blob := BoundedBytes .raw 16

structure A where
  a : Int32 := 0
deriving DecidableEq, Repr

structure B where
  b : Int64 := 0
deriving DecidableEq, Repr

structure C where
  c : Name := {}
deriving DecidableEq, Repr

instance : Shown A := ⟨fun v => shownFields "A" [("a", shown v.a)]⟩
instance : Shown B := ⟨fun v => shownFields "B" [("b", shown v.b)]⟩
instance : Shown C := ⟨fun v => shownFields "C" [("c", shown v.c)]⟩

/-! ## An integer and a default arm -/

namespace U

inductive Arm where
  | a | b | c
deriving DecidableEq, Repr

def Payload : Arm → Type
  | .a => A
  | .b => B
  | .c => C

def create : (arm : Arm) → Payload arm
  | .a => ({} : A)
  | .b => ({} : B)
  | .c => ({} : C)

def type : UnionType Arm where
  code :=
    { name := "U", tagName := "t", tagType := "Tag", hasDefault := true
      arms := [
        ⟨[.literal "1"], false, some ⟨"a", .named "A"⟩⟩,
        ⟨[.literal "2"], false, some ⟨"b", .named "B"⟩⟩,
        ⟨[], true, some ⟨"c", .named "C"⟩⟩] }
  arms := [.a, .b, .c]
  accessor
    | .a => "a"
    | .b => "b"
    | .c => "c"

instance : (arm : Arm) → Shown (Payload arm)
  | .a => inferInstanceAs (Shown A)
  | .b => inferInstanceAs (Shown B)
  | .c => inferInstanceAs (Shown C)

instance : (arm : Arm) → BEq (Payload arm)
  | .a => inferInstanceAs (BEq A)
  | .b => inferInstanceAs (BEq B)
  | .c => inferInstanceAs (BEq C)

def selection : Selection Int32 Arm := type.selection

end U

abbrev U := UnionValue Int32 U.Payload

instance : Shown U := ⟨U.type.shownWith⟩

/-! ## An integer, two labels of one arm, and a void arm -/

namespace Strict

inductive Arm where
  | small
deriving DecidableEq, Repr

def Payload : Arm → Type
  | .small => Int32

def create : (arm : Arm) → Payload arm
  | .small => (0 : Int32)

def type : UnionType Arm where
  code :=
    { name := "Strict", tagName := "t", tagType := "int", hasDefault := false
      arms := [
        ⟨[.literal "1", .literal "2"], false, some ⟨"small", .named "int"⟩⟩,
        ⟨[.literal "3"], false, none⟩] }
  arms := [.small]
  accessor
    | .small => "small"

instance : (arm : Arm) → Shown (Payload arm)
  | .small => inferInstanceAs (Shown Int32)

instance : (arm : Arm) → BEq (Payload arm)
  | .small => inferInstanceAs (BEq Int32)

def selection : Selection Int32 Arm := type.selection

end Strict

abbrev Strict := UnionValue Int32 Strict.Payload

instance : Shown Strict := ⟨Strict.type.shownWith⟩

/-! ## A bool -/

namespace Maybe

inductive Arm where
  | color
deriving DecidableEq, Repr

def Payload : Arm → Type
  | .color => Color

def create : (arm : Arm) → Payload arm
  | .color => ({} : Color)

def type : UnionType Arm where
  code :=
    { name := "Maybe", tagName := "present", tagType := "bool", hasDefault := false
      arms := [
        ⟨[.name "TRUE"], false, some ⟨"color", .named "Color"⟩⟩,
        ⟨[.name "FALSE"], false, none⟩] }
  arms := [.color]
  accessor
    | .color => "color"

instance : (arm : Arm) → Shown (Payload arm)
  | .color => inferInstanceAs (Shown Color)

instance : (arm : Arm) → BEq (Payload arm)
  | .color => inferInstanceAs (BEq Color)

def selection : Selection Bool Arm := type.selection

end Maybe

abbrev Maybe := UnionValue Bool Maybe.Payload

instance : Shown Maybe := ⟨Maybe.type.shownWith⟩

/-! ## An enum -/

namespace Paint

inductive Arm where
  | redLevel | greenLevel
deriving DecidableEq, Repr

def Payload : Arm → Type
  | .redLevel => UInt32
  | .greenLevel => Double

def create : (arm : Arm) → Payload arm
  | .redLevel => (0 : UInt32)
  | .greenLevel => ({} : Double)

def type : UnionType Arm where
  code :=
    { name := "Paint", tagName := "color", tagType := "Color", hasDefault := false
      arms := [
        ⟨[.name "RED"], false, some ⟨"red_level", .named "unsigned int"⟩⟩,
        ⟨[.name "GREEN"], false, some ⟨"green_level", .named "double"⟩⟩] }
  arms := [.redLevel, .greenLevel]
  accessor
    | .redLevel => "red_level"
    | .greenLevel => "green_level"

instance : (arm : Arm) → Shown (Payload arm)
  | .redLevel => inferInstanceAs (Shown UInt32)
  | .greenLevel => inferInstanceAs (Shown Double)

instance : (arm : Arm) → BEq (Payload arm)
  | .redLevel => inferInstanceAs (BEq UInt32)
  | .greenLevel => instBEqDouble

def selection : Selection Color Arm := type.selection

end Paint

abbrev Paint := UnionValue Color Paint.Payload

instance : Shown Paint := ⟨Paint.type.shownWith⟩

/-! ## An enum and a void default arm -/

namespace Extra

inductive Arm where
  | r
deriving DecidableEq, Repr

def Payload : Arm → Type
  | .r => Int32

def create : (arm : Arm) → Payload arm
  | .r => (0 : Int32)

def type : UnionType Arm where
  code :=
    { name := "_Record_extra", tagName := "kind", tagType := "Color", hasDefault := true
      arms := [
        ⟨[.name "RED"], false, some ⟨"r", .named "int"⟩⟩,
        ⟨[], true, none⟩] }
  arms := [.r]
  accessor
    | .r => "r"

instance : (arm : Arm) → Shown (Payload arm)
  | .r => inferInstanceAs (Shown Int32)

instance : (arm : Arm) → BEq (Payload arm)
  | .r => inferInstanceAs (BEq Int32)

def selection : Selection Color Arm := type.selection

end Extra

abbrev Extra := UnionValue Color Extra.Payload

instance : Shown Extra := ⟨Extra.type.shownWith⟩

end Xdr.Sample
