import L32.Number.Double
import L32.Number.Power

set_option autoImplicit false

/-! # The double nearest to a decimal

`nearestDouble?` reads the decimal `± coefficient · 10 ^ exponent` as a double: the nearest one,
and of two equally near ones the one with the even mantissa. A decimal beyond the largest double
has no reading, and one that is too small becomes a zero of its sign. -/

namespace L32

namespace Nearest

/-- The greatest `e` with `2 ^ e ≤ num / den`, for positive `num` and `den`. -/
def binaryExponent (num den : Nat) : Int :=
  let guess : Int := (num.log2 : Int) - den.log2
  if num * powDen 2 guess < den * powNum 2 guess then guess - 1 else guess

/-- Divides and rounds to the nearest natural number, halves to the even one. -/
def roundDiv (num den : Nat) : Nat :=
  let q := num / den
  let r := num % den
  if den < 2 * r ∨ (2 * r = den ∧ q % 2 = 1) then q + 1 else q

/-- The exponent of the last binary place of the doubles around `num / den`. -/
def placeExponent (num den : Nat) : Int :=
  let e := binaryExponent num den - 52
  if e < Double.leastExponent then Double.leastExponent else e

/-- The bits of the double nearest to `num / den`, without a sign. Neighbouring doubles have
neighbouring bits, so a mantissa that rounds up to the next power of two needs no case of its
own. -/
def magnitudeBits (num den : Nat) : Nat :=
  let e := placeExponent num den
  (e - Double.leastExponent).toNat * Double.hidden
    + roundDiv (num * powDen 2 e) (den * powNum 2 e)

/-- Decimal exponents beyond this one in either direction are not computed with: they lie outside
the range of doubles by far. -/
def farExponent : Int := 400

/-- The bits of the double nearest to `coefficient · 10 ^ exponent`, without a sign, if that is
not beyond the largest double. -/
def bits? (coefficient : Nat) (exponent : Int) : Option Nat :=
  if coefficient = 0 then some 0
  else
    let weight := (coefficient.log2 : Int) * 30103 / 100000 + exponent
    if farExponent < weight then none
    else if weight < -farExponent then some 0
    else
      let bits := magnitudeBits (coefficient * powNum 10 exponent) (powDen 10 exponent)
      if bits < Double.topField * Double.hidden then some bits else none

end Nearest

/-- The double nearest to `± coefficient · 10 ^ exponent`; `none` when it is too large. -/
def nearestDouble? (negative : Bool) (coefficient : Nat) (exponent : Int) : Option Float :=
  (Nearest.bits? coefficient exponent).map fun bits =>
    Float.ofBits ((if negative then Double.signBit else 0) + bits).toUInt64

end L32
