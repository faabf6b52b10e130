set_option autoImplicit false

/-! # What a double-precision number denotes

The bits of a `Float` are a sign, eleven bits of exponent and fifty-two of fraction. `Double` is
what they mean: not a number, an infinity, or an exact fraction `± mantissa · 2 ^ exponent`. The
digits of a number text are chosen, and the double nearest to a text is found, on this exact
reading, so that no step of either rounds by accident. -/

namespace L32

/-- The meaning of the bits of a double. -/
inductive Double where
  | notANumber
  | infinite (negative : Bool)
  | finite (negative : Bool) (mantissa : Nat) (exponent : Int)
  deriving DecidableEq, Repr

namespace Double

/-- The mantissas of normal numbers start here: the fifty-second power of two. -/
def hidden : Nat := 4503599627370496

/-- The exponent of the numbers closest to zero. -/
def leastExponent : Int := -1074

/-- The exponent field of infinities and of what is not a number. -/
def topField : Nat := 2047

/-- The bit of the sign: the sixty-third power of two. -/
def signBit : Nat := 9223372036854775808

def ofBits (bits : Nat) : Double :=
  let negative := decide (signBit ≤ bits)
  let field := bits / hidden % 2048
  let fraction := bits % hidden
  if field = topField then
    if fraction = 0 then .infinite negative else .notANumber
  else if field = 0 then .finite negative fraction leastExponent
  else .finite negative (hidden + fraction) (leastExponent + (field - 1 : Nat))

def ofFloat (x : Float) : Double :=
  ofBits x.toBits.toNat

end Double

/-- Neither an infinity nor a NaN. -/
def isFinite (x : Float) : Bool :=
  match Double.ofFloat x with
  | .finite .. => true
  | _ => false

end L32
