/-
Decimal text of binary numbers: the fewest digits that read back to the same number.

A finite number is `m * 2 ^ q`. The reals that round to it form an interval, from halfway to the neighbour below to
halfway to the neighbour above, ends included if `m` is even. Digits are sought on ever finer decimal grids; the first
grid with a point in the interval wins, of two such points the nearer, and of two equally near the upper.
-/
namespace Xdr.Decimal

structure Binary where
  m : Nat
  q : Int
  /-- the gap to the neighbour below is half as wide as the gap above -/
  narrowBelow : Bool
deriving DecidableEq, Repr

/-- the format of a binary word: a sign, `exponent` bits and `fraction` bits -/
structure Format where
  exponent : Nat
  fraction : Nat
deriving DecidableEq, Repr

def single : Format := ⟨8, 23⟩

def double : Format := ⟨11, 52⟩

namespace Format

def fractionOf (f : Format) (bits : Nat) : Nat := bits % Nat.pow 2 f.fraction

def exponentOf (f : Format) (bits : Nat) : Nat := bits / Nat.pow 2 f.fraction % Nat.pow 2 f.exponent

def isNegative (f : Format) (bits : Nat) : Bool := bits / Nat.pow 2 (f.fraction + f.exponent) % 2 = 1

/-- neither infinite nor a number at all -/
def isFinite (f : Format) (bits : Nat) : Bool := f.exponentOf bits < Nat.pow 2 f.exponent - 1

def isNaN (f : Format) (bits : Nat) : Bool := !f.isFinite bits && f.fractionOf bits != 0

def isZero (f : Format) (bits : Nat) : Bool := f.exponentOf bits = 0 && f.fractionOf bits = 0

/-- the exponent of the least positive number -/
def least (f : Format) : Int := 2 - (Nat.pow 2 (f.exponent - 1) : Nat) - f.fraction

/-- the magnitude of a finite word -/
def magnitude (f : Format) (bits : Nat) : Binary :=
  let e := f.exponentOf bits
  let m := f.fractionOf bits
  if e = 0 then ⟨m, f.least, false⟩ else ⟨Nat.pow 2 f.fraction + m, f.least + e - 1, m = 0 && e > 1⟩

/-- equal as numbers: zeros are equal whatever their signs, and what is no number equals nothing -/
def same (f : Format) (a b : Nat) : Bool :=
  !f.isNaN a && !f.isNaN b && (a = b || (f.isZero a && f.isZero b))

end Format

/-- `value * 10 ^ exp` -/
structure Digits where
  value : Nat
  exp : Int
deriving DecidableEq, Repr

/-- compares `a * 10 ^ i` with `n * 2 ^ j` -/
def compareScaled (a : Nat) (i : Int) (n : Nat) (j : Int) : Ordering :=
  compare (a * Nat.pow 10 i.toNat * Nat.pow 2 (-j).toNat) (n * Nat.pow 2 j.toNat * Nat.pow 10 (-i).toNat)

namespace Binary

/-- the decimal is one of the reals that round to the number -/
def readsBack (x : Binary) (d : Digits) : Bool :=
  let low := compareScaled d.value d.exp (if x.narrowBelow then 4 * x.m - 1 else 4 * x.m - 2) (x.q - 2)
  let high := compareScaled d.value d.exp (4 * x.m + 2) (x.q - 2)
  let even := x.m % 2 = 0
  (low = .gt || (even && low = .eq)) && (high = .lt || (even && high = .eq))

/-- the exponent of the least power of ten above the number -/
def scale (x : Binary) : Int :=
  let guess := (x.m.log2 + x.q) * 30103 / 100000
  let near := (List.range 6).map fun (i : Nat) => guess - 2 + (i : Int)
  (near.find? fun k => compareScaled 1 k x.m x.q = .gt).getD (guess + 4)

/-- the number in units of `10 ^ e`, rounded down -/
def floorAt (x : Binary) (e : Int) : Nat :=
  x.m * Nat.pow 2 x.q.toNat * Nat.pow 10 (-e).toNat / (Nat.pow 2 (-x.q).toNat * Nat.pow 10 e.toNat)

/-- the point of a grid that reads back, if there is one -/
def onGrid? (x : Binary) (e : Int) : Option Digits :=
  let below : Digits := ⟨x.floorAt e, e⟩
  let above : Digits := ⟨x.floorAt e + 1, e⟩
  match x.readsBack below, x.readsBack above with
  | true, true =>
    if compareScaled (below.value + above.value) e (2 * x.m) x.q = .gt then some below else some above
  | true, false => some below
  | false, true => some above
  | false, false => none

/-- the number itself -/
def exact (x : Binary) : Digits :=
  if x.q < 0 then ⟨x.m * Nat.pow 5 (-x.q).toNat, x.q⟩ else ⟨x.m * Nat.pow 2 x.q.toNat, 0⟩

def shortest (x : Binary) : Digits :=
  ((List.range 17).findSome? fun n => x.onGrid? (x.scale - (n + 1 : Nat))).getD x.exact

end Binary

/-- the digits without zeros at their end, and the exponent of the leading one -/
def leading (d : Digits) : List Char × Int :=
  let digits := (toString d.value).toList
  let kept := (digits.reverse.dropWhile (· = '0')).reverse
  (if kept.isEmpty then ['0'] else kept, (digits.length : Int) - 1 + d.exp)

def zeros (n : Nat) : List Char := List.replicate n '0'

/-- with a point, and a digit at least on each side of it -/
def positional (digits : List Char) (e : Int) : List Char :=
  if e < 0 then '0' :: '.' :: zeros (-e - 1).toNat ++ digits
  else
    let whole := e.toNat + 1
    let behind := digits.drop whole
    digits.take whole ++ zeros (whole - digits.length) ++ '.' :: (if behind.isEmpty then ['0'] else behind)

/-- one digit, a point if there are more, and the exponent -/
def scientific (digits : List Char) (e : Int) : List Char :=
  let head := match digits with
    | d :: r => if r.isEmpty then [d] else d :: '.' :: r
    | [] => []
  head ++ 'e' :: (toString e).toList

/-- numbers from a ten-thousandth up to sixteen digits are positional -/
def isPositional (e : Int) : Bool := -4 ≤ e && e < 16

/-- the text of a magnitude other than zero -/
def magnitudeText (x : Binary) : List Char :=
  let (digits, e) := leading x.shortest
  if isPositional e then positional digits e else scientific digits e

/-- the text of a word -/
def text (f : Format) (bits : Nat) : String :=
  if f.isNaN bits then "NaN"
  else
    let sign := if f.isNegative bits then ['-'] else []
    let body :=
      if !f.isFinite bits then ['i', 'n', 'f']
      else if f.isZero bits then ['0', '.', '0']
      else magnitudeText (f.magnitude bits)
    String.ofList (sign ++ body)

end Xdr.Decimal
