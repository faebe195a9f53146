import GraphSchema.Number.Decimal

namespace GraphSchema

structure Double where
  bits : UInt64
  deriving DecidableEq, Inhabited

namespace Double

def ofFloat (x : Float) : Double := ⟨x.toBits⟩

def underscoresJoin (before : Char) : List Char → Bool
  | [] => true
  | c :: cs =>
    (c != '_' || (before.isDigit && cs.head?.any Char.isDigit)) && underscoresJoin c cs

def ofDecimal? : Decimal → Option Double
  | .finite n c e =>
    let m := Float.ofScientific c (e < 0) e.natAbs
    some (ofFloat (if n then -m else m))
  | .infinite n => some ⟨if n then 0xFFF0000000000000 else 0x7FF0000000000000⟩
  | .notANumber _ signaling _ identity =>
    if signaling then none else some ⟨0x7FF8000000000000 + identity.toUInt64⟩

def isSeparator (c : Char) : Bool := 0x1C ≤ c.toNat && c.toNat ≤ 0x1F

-- The number nearest to a decimal text. No digits follow the letters that stand for none; what
-- is none takes the given identity.
def ofText? (identity : Nat) (s : String) : Option Double := do
  let cs := s.toList.map Digit.plain
  let d ← Decimal.ofText? s
  if ! underscoresJoin ' ' cs || cs.any isSeparator then none
  else if d.isNaN && cs.any Char.isDigit then none
  else ofDecimal? (d.identified identity)

-- The weight of the sign bit, and that of the bit above the fraction.
def signUnit : Nat := 0x8000000000000000

def hiddenUnit : Nat := 0x10000000000000

def negative (x : Double) : Bool := x.bits.toNat / signUnit == 1

def biased (x : Double) : Nat := x.bits.toNat / hiddenUnit % 2048

def fraction (x : Double) : Nat := x.bits.toNat % hiddenUnit

def isFinite (x : Double) : Bool := x.biased != 2047

def isNaN (x : Double) : Bool := x.biased == 2047 && x.fraction != 0

-- A finite number is the significand times two to this exponent.
def significand (x : Double) : Nat :=
  if x.biased = 0 then x.fraction else hiddenUnit + x.fraction

def exponent (x : Double) : Int := (max x.biased 1 : Nat) - 1075

def isZero (x : Double) : Bool := x.isFinite && x.significand == 0

def toDecimal (x : Double) : Decimal :=
  if x.isNaN then .notANumber x.negative false 0 0
  else if ! x.isFinite then .infinite x.negative
  else if 0 ≤ x.exponent then .finite x.negative (x.significand * Nat.pow 2 x.exponent.toNat) 0
  else .finite x.negative (x.significand * Nat.pow 5 (-x.exponent).toNat) x.exponent

-- The numbers that round to one double, between quarters of its last place.
structure Interval where
  low : Nat
  mid : Nat
  high : Nat
  exponent : Int
  closed : Bool

def interval (x : Double) : Interval where
  -- Below a power of two the neighbour is only half as far away.
  low := 4 * x.significand - (if x.fraction = 0 ∧ 1 < x.biased then 1 else 2)
  mid := 4 * x.significand
  high := 4 * x.significand + 2
  exponent := x.exponent - 2
  closed := x.significand % 2 == 0

namespace Interval

-- The point c · 10 ^ k compared with v · 2 ^ exponent, both scaled to whole numbers.
def pointScale (i : Interval) (k : Int) : Nat :=
  Nat.pow 10 k.toNat * Nat.pow 2 (-i.exponent).toNat

def valueScale (i : Interval) (k : Int) : Nat :=
  Nat.pow 10 (-k).toNat * Nat.pow 2 i.exponent.toNat

def contains (i : Interval) (c : Nat) (k : Int) : Bool :=
  let p := c * i.pointScale k
  let l := i.low * i.valueScale k
  let h := i.high * i.valueScale k
  if i.closed then l ≤ p && p ≤ h else l < p && p < h

def pick (i : Interval) (k : Int) : Option Nat :=
  let v := i.mid * i.valueScale k
  let s := i.pointScale k
  let c := v / s
  match i.contains c k, i.contains (c + 1) k with
  | true, false => some c
  | false, true => some (c + 1)
  | true, true =>
    let below := v - c * s
    let above := (c + 1) * s - v
    if below < above ∨ (below = above ∧ c % 2 = 0) then some c else some (c + 1)
  | false, false => none

def search (i : Interval) : Nat → Int → Nat × Int
  | 0, k => (i.mid * i.valueScale k / i.pointScale k, k)
  | fuel + 1, k =>
    match i.pick k with
    | some c => (c, k)
    | none => search i fuel (k - 1)

end Interval

def shortest (x : Double) : Nat × Int :=
  -- No grid coarser than the number itself is worth a try.
  let top := ((x.significand.log2 : Int) + x.exponent) * 30103 / 100000 + 2
  x.interval.search 24 top

def exponentText (e : Int) : String :=
  (if e < 0 then "e-" else "e+") ++ (if e.natAbs < 10 then "0" else "") ++ toString e.natAbs

-- Positional from a ten-thousandth up to sixteen digits before the point.
def magnitudeText (c : Nat) (k : Int) : String :=
  let digits := toString c
  let e := k + digits.length - 1
  if -4 ≤ e ∧ e < 16 then
    if 0 ≤ k then digits ++ Decimal.zeros k.toNat ++ ".0"
    else if 0 ≤ e then Decimal.pointAfter (e + 1).toNat digits
    else "0." ++ Decimal.zeros (-e - 1).toNat ++ digits
  else
    (if digits.length = 1 then digits else Decimal.pointAfter 1 digits) ++ exponentText e

def toText (x : Double) : String :=
  if x.isNaN then "nan"
  else if ! x.isFinite then Decimal.sign x.negative ++ "inf"
  else if x.isZero then Decimal.sign x.negative ++ "0.0"
  else
    let (c, k) := x.shortest
    Decimal.sign x.negative ++ magnitudeText c k

end Double

end GraphSchema
