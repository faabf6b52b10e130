set_option autoImplicit false

/-! # Powers with integer exponents

For an integer `e`, the power `base ^ e` is the fraction `powNum base e / powDen base e`, and one
of the two parts is one. Comparisons of numbers that are scaled by powers of two and of ten are
made on such parts, crosswise, and so stay among the natural numbers. -/

namespace L32

def powNum (base : Nat) (e : Int) : Nat :=
  Nat.pow base e.toNat

def powDen (base : Nat) (e : Int) : Nat :=
  Nat.pow base (-e).toNat

end L32
