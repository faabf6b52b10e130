import L32.Number.Decimal
import L32.Number.Double
import L32.Number.Power

set_option autoImplicit false

/-! # The fewest digits that read back

`Decimal.shortest` chooses the digits of a finite double: of all decimals that round to it, one
with the fewest digits, and of those the one nearest to it. The choice is made in exact integer
arithmetic. A double `m · 2 ^ e` is what rounds to it from the reals between the midpoints to its
two neighbours; the midpoints themselves belong to it when `m` is even, because rounding goes to
the even mantissa there.

On the grid of decimals with `k` digits only the two neighbours of the value can be the nearest
member of that interval, so for `k = 1, 2, …` both are tried, and seventeen digits are always
enough. When both neighbours read back and lie at the same distance, a `Tie` decides. -/

namespace L32

/-- Which of two decimals at the same distance is chosen. -/
inductive Tie where
  /-- The one of larger magnitude. -/
  | up
  /-- The one whose last digit is even. -/
  | even
  deriving DecidableEq, Repr

namespace Shortest

/-- The interval of reals that round to a double, on a grid of decimals. All four numbers are
scaled alike: `step` is the distance of two neighbours on the grid, and the coefficient `c`
stands for the grid point `c * step`. -/
structure Window where
  low : Nat
  value : Nat
  high : Nat
  step : Nat
  /-- Whether the two ends belong to the interval. -/
  closed : Bool

/-- The window of `mantissa · 2 ^ exponent` on the grid of the multiples of `10 ^ grid`. Quarters
of the last binary place are the unit, because below a power of two the neighbour is only half as
far. -/
def window (mantissa : Nat) (exponent : Int) (grid : Int) : Window :=
  let unit := powNum 2 (exponent - 2) * powDen 10 grid
  let below := if mantissa = Double.hidden ∧ exponent ≠ Double.leastExponent then 1 else 2
  { low := (4 * mantissa - below) * unit
    value := 4 * mantissa * unit
    high := (4 * mantissa + 2) * unit
    step := powNum 10 grid * powDen 2 (exponent - 2)
    closed := mantissa % 2 = 0 }

/-- Whether the grid point of a coefficient reads back. -/
def Window.contains (w : Window) (c : Nat) : Bool :=
  if w.closed then decide (w.low ≤ c * w.step) && decide (c * w.step ≤ w.high)
  else decide (w.low < c * w.step) && decide (c * w.step < w.high)

/-- The nearest coefficient that reads back, if there is one. -/
def Window.nearest? (w : Window) (tie : Tie) : Option Nat :=
  let c := w.value / w.step
  let down := w.value - c * w.step
  let up := (c + 1) * w.step - w.value
  match w.contains c, w.contains (c + 1) with
  | false, false => none
  | true, false => some c
  | false, true => some (c + 1)
  | true, true =>
    if down < up then some c
    else if up < down then some (c + 1)
    else match tie with
      | .up => some (c + 1)
      | .even => if c % 2 = 0 then some c else some (c + 1)

/-- The weight of the first decimal digit: the greatest `x` with `10 ^ x ≤ mantissa · 2 ^
exponent`. The binary logarithm gives it up to one, and one comparison decides. -/
def leadingExponent (mantissa : Nat) (exponent : Int) : Int :=
  let guess := (mantissa.log2 + exponent) * 30103 / 100000
  let next := guess + 1
  if mantissa * powNum 2 exponent * powDen 10 next < powNum 10 next * powDen 2 exponent then guess
  else next

/-- Removes zeros at the end, but leaves the first digit. -/
def stripZeros : List Digit → List Digit
  | [] => []
  | d :: ds => d :: (ds.reverse.dropWhile (· = 0)).reverse

/-- The number of digits that is always enough. -/
def enoughDigits : Nat := 17

end Shortest

open Shortest in
/-- The fewest digits that read back as `mantissa · 2 ^ exponent`, the nearest of them, with a
sign in front. Zero has the one digit `0`. -/
def Decimal.shortest (tie : Tie) (negative : Bool) (mantissa : Nat) (exponent : Int) : Decimal :=
  if mantissa = 0 then ⟨negative, [0], 0⟩
  else
    let x := leadingExponent mantissa exponent
    let found := (List.range enoughDigits).findSome? fun (k : Nat) =>
      ((window mantissa exponent (x - k)).nearest? tie).map fun c => (k, c)
    match found with
    | none => ⟨negative, [0], 0⟩
    | some (k, c) =>
      let ds := digitsOf c
      ⟨negative, stripZeros ds, x - k + (ds.length - 1 : Nat)⟩

end L32
