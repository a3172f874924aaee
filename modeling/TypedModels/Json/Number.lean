import TypedModels.Json.Binary64

/-!
# Numbers of a JSON text

A number is an integer of at most 64 bits or a binary64 number. A numeral without fraction and
exponent that fits in 64 bits, signed or unsigned, denotes an integer; every other numeral denotes
a binary64 number.

## Main definitions

* `Number` : integers and binary64 numbers, kept apart.
* `Numeral` : the digits of a written number.
* `Numeral.value?` : the number that a numeral denotes.
-/

namespace TypedModels

inductive Number where
  | int (n : Int)
  | float (x : Binary64)
deriving DecidableEq, Repr

/-- Whether the number has no fractional part. -/
def Number.isIntegral : Number → Bool
  | .int _ => true
  | .float x => x.isIntegral

/-- A number as it is written. `fraction` is empty if there is no decimal point. -/
structure Numeral where
  negative : Bool
  whole : List Nat
  fraction : List Nat
  exponent : Option Int
deriving DecidableEq, Repr

namespace Numeral

/-- Appends digits to a significand for as long as the result fits in 64 bits, and returns the
digits that are left. -/
def absorb (significand : Nat) : List Nat → Nat × List Nat
  | [] => (significand, [])
  | d :: ds =>
    if significand * 10 + d < Nat.pow 2 64 then absorb (significand * 10 + d) ds
    else (significand, d :: ds)

/-- An integer of at most 64 bits; a magnitude too large for its sign, or a negative zero, is a
binary64 number. -/
def integer? (negative : Bool) (magnitude : Nat) : Option Number :=
  if !negative then some (.int magnitude)
  else if 0 < magnitude ∧ magnitude ≤ Nat.pow 2 63 then some (.int (-magnitude))
  else (Binary64.ofNat? magnitude).map fun x => .float x.neg

/-- The number that a numeral denotes; `none` if it is too large. A significand of more than 64 bits
is cut: the digits left out before the point count by their places only. -/
def value? (n : Numeral) : Option Number :=
  let (significand, dropped) := absorb 0 n.whole
  if n.fraction = [] ∧ n.exponent = none ∧ dropped = [] then integer? n.negative significand
  else do
    let (significand, unused) := absorb significand n.fraction
    let places : Int := (n.fraction.length : Int) - unused.length
    let x ← Binary64.ofNat? significand
    let x ← x.scaleByTen? (dropped.length - places + n.exponent.getD 0)
    some (.float (if n.negative then x.neg else x))

end Numeral

end TypedModels
