/-!
# Binary64 numbers, exactly

A finite binary64 number is kept as a sign, a significand and a binary exponent, so that every
operation on it is a computation with natural numbers. Results that do not fit are rounded to the
nearest representable number, and of two equally near ones to the one with an even significand.

## Main definitions

* `Binary64` : the finite binary64 numbers, signed zeros included.
* `Binary64.ofRatio?` : the number nearest to a quotient, unless that overflows.
* `Binary64.mul?`, `Binary64.div?` : rounded product and quotient.
* `Binary64.scaleByTen?` : a number moved by a power of ten.
* `Binary64.isIntegral` : whether the fractional part is zero.
-/

namespace TypedModels

/-- The number `significand * 2 ^ exponent`, negated if `negative`. The bounds make the
representation unique. -/
structure Binary64 where
  negative : Bool
  significand : Nat
  exponent : Int
  bounded : significand < Nat.pow 2 53 ∧ -1074 ≤ exponent ∧ exponent ≤ 971 ∧
    (Nat.pow 2 52 ≤ significand ∨ exponent = -1074)
deriving DecidableEq, Repr

namespace Binary64

/-- Zero, with a sign. -/
def zero (negative : Bool) : Binary64 := ⟨negative, 0, -1074, by decide⟩

def isZero (x : Binary64) : Bool := x.significand == 0

def neg (x : Binary64) : Binary64 := { x with negative := !x.negative }

/-- The magnitude as a quotient of natural numbers. -/
def ratio (x : Binary64) : Nat × Nat :=
  if 0 ≤ x.exponent then (x.significand * Nat.pow 2 x.exponent.toNat, 1)
  else (x.significand, Nat.pow 2 (-x.exponent).toNat)

/-- Whether the fractional part is zero. -/
def isIntegral (x : Binary64) : Bool :=
  0 ≤ x.exponent || x.significand % Nat.pow 2 (-x.exponent).toNat == 0

/-! ## Rounding -/

/-- The integer nearest to `num / den`, the even one of two equally near ones. -/
def roundHalfEven (num den : Nat) : Nat :=
  let q := num / den
  let r := num % den
  if 2 * r < den then q else if den < 2 * r then q + 1 else q + q % 2

/-- The quotient `num / den` divided by `2 ^ e`. -/
def divPow (num den : Nat) (e : Int) : Nat × Nat :=
  if 0 ≤ e then (num, den * Nat.pow 2 e.toNat) else (num * Nat.pow 2 (-e).toNat, den)

/-- The exponent at which `num / den` has 53 significant bits, or the least exponent. -/
def exponentFor (num den : Nat) : Int :=
  let low := max ((num.log2 : Int) - den.log2 - 53) (-1074)
  let (n, d) := divPow num den low
  if n / d < Nat.pow 2 53 then low else low + 1

/-- The binary64 number nearest to `num / den`; `none` if it exceeds the largest one. -/
def ofRatio? (negative : Bool) (num den : Nat) : Option Binary64 :=
  if num = 0 then some (zero negative)
  else
    let e := exponentFor num den
    let (n, d) := divPow num den e
    let m := roundHalfEven n d
    let (m, e) := if m = Nat.pow 2 53 then (Nat.pow 2 52, e + 1) else (m, e)
    if h : m < Nat.pow 2 53 ∧ -1074 ≤ e ∧ e ≤ 971 ∧ (Nat.pow 2 52 ≤ m ∨ e = -1074) then
      some ⟨negative, m, e, h⟩
    else none

def ofNat? (n : Nat) : Option Binary64 := ofRatio? false n 1

/-! ## Arithmetic -/

def mul? (x y : Binary64) : Option Binary64 :=
  ofRatio? (x.negative != y.negative) (x.ratio.1 * y.ratio.1) (x.ratio.2 * y.ratio.2)

/-- The rounded quotient, for a divisor that is not zero. -/
def div? (x y : Binary64) : Option Binary64 :=
  ofRatio? (x.negative != y.negative) (x.ratio.1 * y.ratio.2) (x.ratio.2 * y.ratio.1)

/-- The largest power of ten that is a binary64 number. -/
def maxPowerOfTen : Nat := 308

/-- Divides by `10 ^ k`, in steps of at most the largest representable power of ten. -/
def shrinkByTen? (x : Binary64) (k : Nat) : Option Binary64 := do
  if k ≤ maxPowerOfTen then x.div? (← ofNat? (Nat.pow 10 k))
  else if x.isZero then some x
  else (← x.div? (← ofNat? (Nat.pow 10 maxPowerOfTen))).shrinkByTen? (k - maxPowerOfTen)
termination_by k
decreasing_by simp only [maxPowerOfTen] at *; omega

/-- The product with `10 ^ k`, where the power is rounded before it is applied. -/
def scaleByTen? (x : Binary64) : Int → Option Binary64
  | .ofNat k =>
    if k ≤ maxPowerOfTen then do x.mul? (← ofNat? (Nat.pow 10 k))
    else if x.isZero then some x else none
  | .negSucc k => x.shrinkByTen? (k + 1)

end Binary64

end TypedModels
