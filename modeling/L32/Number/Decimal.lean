set_option autoImplicit false

/-! # Decimal digits and decimal numbers

A `Decimal` is a sign, the digits `d₁ d₂ … dₖ` and the weight `x` of the first of them: it
denotes `± d₁.d₂…dₖ · 10^x`. Every number text of the library is laid out from a `Decimal`, and
every number text that is read becomes a coefficient and a power of ten first, so this file is
the one place that knows how digits and natural numbers correspond.

* `digitsOf` writes a natural number, without a superfluous leading zero;
* `ofDigits` reads a digit string back;
* `Decimal.whole` and `Decimal.fraction` are the digits on the two sides of the decimal point;
* `Decimal.plain` is the text without an exponent, and `Decimal.scientific` the one with it. -/

namespace L32

abbrev Digit := Fin 10

/-- There is a digit zero, so numerals denote digits. The zero of `Nat` is the one that numerals of
type `Fin` ask for. -/
instance Digit.neZero : @NeZero Nat Zero.ofOfNat0 10 := ⟨by decide⟩

def Digit.toChar (d : Digit) : Char :=
  Char.ofNat (48 + d.val)

/-- The digit that a character stands for; only the ten ASCII digits stand for one. -/
def Digit.ofChar? (c : Char) : Option Digit :=
  if 48 ≤ c.toNat then
    if h : c.toNat - 48 < 10 then some ⟨c.toNat - 48, h⟩ else none
  else none

theorem Digit.ofChar?_toChar (d : Digit) : Digit.ofChar? d.toChar = some d := by
  revert d
  decide

def digitText (ds : List Digit) : String :=
  String.ofList (ds.map Digit.toChar)

/-- The digits of a natural number, the most significant first; zero has the one digit `0`. -/
def digitsOf (n : Nat) : List Digit :=
  if h : n < 10 then [⟨n, h⟩]
  else digitsOf (n / 10) ++ [⟨n % 10, Nat.mod_lt n (by decide)⟩]
termination_by n
decreasing_by omega

def ofDigits (ds : List Digit) : Nat :=
  ds.foldl (fun n d => 10 * n + d.val) 0

theorem ofDigits_append_singleton (ds : List Digit) (d : Digit) :
    ofDigits (ds ++ [d]) = 10 * ofDigits ds + d.val := by
  simp [ofDigits]

/-- Reading the digits of a number gives the number back. -/
theorem ofDigits_digitsOf (n : Nat) : ofDigits (digitsOf n) = n := by
  induction n using digitsOf.induct with
  | case1 n h =>
      rw [digitsOf]
      simp [h, ofDigits]
  | case2 n h ih =>
      rw [digitsOf]
      simp only [h, dite_false, ofDigits_append_singleton, ih]
      omega

def natText (n : Nat) : String :=
  digitText (digitsOf n)

/-- A decimal number in scientific form: the first digit has weight `10 ^ exponent`. -/
structure Decimal where
  negative : Bool
  digits : List Digit
  exponent : Int
  deriving DecidableEq, Repr

namespace Decimal

/-- How many digits stand in front of the decimal point when the number is written without an
exponent; zero or less when the point comes before the first digit. -/
def point (d : Decimal) : Int :=
  d.exponent + 1

/-- The digits in front of the decimal point, padded with zeros up to it; `0` if there are
none. -/
def whole (d : Decimal) : List Digit :=
  if d.point ≤ 0 then [0]
  else d.digits.take d.point.toNat ++ List.replicate (d.point.toNat - d.digits.length) 0

/-- The digits after the decimal point, with the zeros that separate them from it. -/
def fraction (d : Decimal) : List Digit :=
  if d.point ≤ 0 then List.replicate (-d.point).toNat 0 ++ d.digits
  else d.digits.drop d.point.toNat

/-- The sign in front of a number: negative numbers have one, also negative zero. -/
def signText (d : Decimal) : String :=
  if d.negative then "-" else ""

/-- Digits with a decimal point before the second part, which is left out with its point when it
is empty. -/
def pointed (front back : List Digit) : String :=
  match back with
  | [] => digitText front
  | _ :: _ => digitText front ++ "." ++ digitText back

/-- The text without an exponent, and without a point when there is no fraction. -/
def plain (d : Decimal) : String :=
  d.signText ++ pointed d.whole d.fraction

/-- The text with an exponent: one digit in front of the point, and the exponent with its sign. -/
def scientific (d : Decimal) : String :=
  d.signText ++ pointed (d.digits.take 1) (d.digits.drop 1)
    ++ "e" ++ (if d.exponent < 0 then "-" else "+") ++ natText d.exponent.natAbs

end Decimal

end L32
