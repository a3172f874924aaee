import TypedModels.Json.Number

/-!
# Shortest decimal text of a number

A binary64 number is written with the fewest significant digits that read back as the same number,
and among those with the digits nearest to it.

## Main definitions

* `Binary64.Interval` : the decimals that round to a given number.
* `Binary64.shortest` : the fewest digits inside that interval.
* `DecimalLayout` : where the point and the exponent go.
* `Number.text` : the written form of a number.
-/

namespace TypedModels

namespace Binary64

/-! ## Digits -/

/-- A magnitude `value / unit` with the bounds of the reals that round to it. The bounds themselves
round to it if `closed`. -/
structure Interval where
  low : Nat
  value : Nat
  high : Nat
  unit : Nat
  closed : Bool

/-- The interval of the reals that round to `x`. Below a power of two the neighbours are half as
far apart. -/
def interval (x : Binary64) : Interval :=
  let m := x.significand
  let below := if m = Nat.pow 2 52 ∧ -1074 < x.exponent then 1 else 2
  let (scale, unit) :=
    if 2 ≤ x.exponent then (Nat.pow 2 (x.exponent - 2).toNat, 1)
    else (1, Nat.pow 2 (2 - x.exponent).toNat)
  { low := (4 * m - below) * scale
    value := 4 * m * scale
    high := (4 * m + 2) * scale
    unit
    closed := m % 2 == 0 }

namespace Interval

/-- The interval with all its bounds multiplied by `10 ^ (-p)`. -/
def shift (i : Interval) (p : Int) : Interval :=
  if 0 ≤ p then { i with unit := i.unit * Nat.pow 10 p.toNat }
  else
    let ten := Nat.pow 10 (-p).toNat
    { i with low := i.low * ten, value := i.value * ten, high := i.high * ten }

/-- Whether the integer `q` lies in the interval. -/
def holds (i : Interval) (q : Nat) : Bool :=
  let t := q * i.unit
  if i.closed then i.low ≤ t && t ≤ i.high else i.low < t && t < i.high

/-- The integer in the interval that is nearest to its value, the even one of two. -/
def nearest? (i : Interval) : Option Nat :=
  let q := i.value / i.unit
  let r := i.value % i.unit
  match i.holds q, i.holds (q + 1) with
  | false, false => none
  | true, false => some q
  | false, true => some (q + 1)
  | true, true =>
    some (if 2 * r < i.unit then q else if i.unit < 2 * r then q + 1 else q + q % 2)

/-- Tries grids of spacing `10 ^ p`, `10 ^ (p - 1)`, … and returns the first point that lies in the
interval, with the exponent of its grid. -/
def search (i : Interval) (p : Int) : Nat → Nat × Int
  | 0 => ((i.shift p).value / (i.shift p).unit, p)
  | n + 1 =>
    match (i.shift p).nearest? with
    | some q => (q, p)
    | none => i.search (p - 1) n

end Interval

/-- The digits `q` and the exponent `p` of the shortest decimal `q * 10 ^ p` that reads back as the
magnitude of `x`. Seventeen digits always suffice. -/
def shortest (x : Binary64) : Nat × Int :=
  let bits : Int := x.significand.log2 + x.exponent + 1
  x.interval.search (bits * 30103 / 100000 + 1) 20

end Binary64

/-! ## Layout -/

/-- The scientific exponents that are written positionally. -/
structure DecimalLayout where
  least : Int
  greatest : Int

namespace DecimalLayout

/-- Digits with a point after the first `whole` of them, and at least one digit on either side. -/
def positional (digits : String) (whole : Int) : String :=
  let n : Int := digits.length
  if whole ≤ 0 then "0." ++ String.ofList (List.replicate (-whole).toNat '0') ++ digits
  else if n ≤ whole then digits ++ String.ofList (List.replicate (whole - n).toNat '0') ++ ".0"
  else
    String.ofList (digits.toList.take whole.toNat) ++ "." ++
      String.ofList (digits.toList.drop whole.toNat)

/-- One digit, the others after a point, and a signed exponent. -/
def scientific (digits : String) (exponent : Int) : String :=
  let first := String.ofList (digits.toList.take 1)
  let others := String.ofList (digits.toList.drop 1)
  let sign := if exponent < 0 then "-" else "+"
  first ++ (if others.isEmpty then "" else "." ++ others) ++ "e" ++ sign ++
    toString exponent.natAbs

/-- The text of `q * 10 ^ p`. -/
def text (layout : DecimalLayout) (q : Nat) (p : Int) : String :=
  let digits := toString q
  let exponent := p + digits.length - 1
  if layout.least ≤ exponent ∧ exponent ≤ layout.greatest then positional digits (exponent + 1)
  else scientific digits exponent

end DecimalLayout

/-- Magnitudes from `0.00001` up to sixteen integral digits are written positionally, the others
with an exponent. -/
def Binary64.layout : DecimalLayout := ⟨-5, 15⟩

def Binary64.text (x : Binary64) : String :=
  let (q, p) := if x.isZero then (0, 0) else x.shortest
  (if x.negative then "-" else "") ++ Binary64.layout.text q p

/-- The written form of a number: an integer in decimal, a binary64 number with the fewest digits
that read back the same. -/
def Number.text : Number → String
  | .int n => toString n
  | .float x => x.text

end TypedModels
