import L32.Proofs.Number.Bits

set_option autoImplicit false

/-! # Rounding to the nearest double

What `Nearest.magnitudeBits` computes, as a statement about rational numbers. `Double.RoundsTo` is
the interval of the numbers that round to a double: from the midpoint to its lower neighbour up to
the midpoint to its upper neighbour, with the midpoints when the mantissa is even. Every number of
the interval gets the bits of the double (`magnitudeBits_of_roundsTo`).

Two steps carry this. The binary exponent of a number is bracketed by powers of two
(`binaryExponent_bounds`), so that it gives the place of the last binary digit; and division with
rounding gives the natural number within a half (`roundDiv_eq`). Below a power of two the place is
one less, and the rounding then carries into it. -/

namespace L32

/-! ## Powers with integer exponents -/

theorem powNum_pos {base : Nat} (h : 0 < base) (e : Int) : 0 < powNum base e :=
  Nat.pow_pos h

theorem powDen_pos {base : Nat} (h : 0 < base) (e : Int) : 0 < powDen base e :=
  Nat.pow_pos h

/-- The two parts of a power make it up. -/
theorem powNum_eq {base : Nat} (h : 0 < base) (e : Int) :
    (powNum base e : ℚ) = (base : ℚ) ^ e * powDen base e := by
  have hbase : (base : ℚ) ≠ 0 := by exact_mod_cast h.ne'
  have hnum : (powNum base e : ℚ) = (base : ℚ) ^ (e.toNat : Int) := by
    rw [zpow_natCast]
    exact Nat.cast_pow base e.toNat
  have hden : (powDen base e : ℚ) = (base : ℚ) ^ ((-e).toNat : Int) := by
    rw [zpow_natCast]
    exact Nat.cast_pow base (-e).toNat
  rw [hnum, hden, ← zpow_add₀ hbase]
  congr 1
  omega

/-- Comparing crosswise compares with the power. -/
theorem mul_powDen_lt_iff {base : Nat} (hbase : 0 < base) {num den : Nat} (hden : 0 < den)
    (e : Int) : num * powDen base e < den * powNum base e ↔ (num : ℚ) / den < (base : ℚ) ^ e := by
  have hd : (0 : ℚ) < den := by exact_mod_cast hden
  have hp : (0 : ℚ) < powDen base e := by exact_mod_cast powDen_pos hbase e
  rw [← @Nat.cast_lt ℚ, Nat.cast_mul, Nat.cast_mul, powNum_eq hbase, ← mul_assoc,
    mul_lt_mul_iff_left₀ hp, div_lt_iff₀ hd, mul_comm (den : ℚ)]

/-- Scaling a fraction by the two parts of a power divides it by the power. -/
theorem mul_powDen_div {base : Nat} (hbase : 0 < base) (num den : Nat) (e : Int) :
    ((num * powDen base e : Nat) : ℚ) / ((den * powNum base e : Nat) : ℚ)
      = (num : ℚ) / den / (base : ℚ) ^ e := by
  have hp : (powDen base e : ℚ) ≠ 0 := by exact_mod_cast (powDen_pos hbase e).ne'
  rw [Nat.cast_mul, Nat.cast_mul, powNum_eq hbase, ← mul_assoc, mul_div_mul_right _ _ hp, div_div]

/-- A whole number times a power, as the fraction that is computed with. -/
theorem mul_powNum_div_powDen {base : Nat} (hbase : 0 < base) (c : Nat) (e : Int) :
    ((c * powNum base e : Nat) : ℚ) / (powDen base e : Nat) = c * (base : ℚ) ^ e := by
  have hp : (powDen base e : ℚ) ≠ 0 := by exact_mod_cast (powDen_pos hbase e).ne'
  rw [Nat.cast_mul, powNum_eq hbase, ← mul_assoc, mul_div_cancel_right₀ _ hp]

/-- A power of two in quarters of a binary place. -/
theorem two_zpow_add_eq (exponent : Int) (k : Nat) :
    (2 : ℚ) ^ (exponent + k) = 2 ^ (k + 2) * 2 ^ (exponent - 2) := by
  rw [← zpow_natCast (2 : ℚ) (k + 2), ← zpow_add₀ (by norm_num)]
  congr 1
  push_cast
  omega

theorem two_zpow_eq_quarters (exponent : Int) : (2 : ℚ) ^ exponent = 4 * 2 ^ (exponent - 2) := by
  have h := two_zpow_add_eq exponent 0
  norm_num at h
  exact h

namespace Nearest

/-! ## Binary exponents -/

/-- **The binary exponent of a fraction**: the fraction lies between two powers of two. -/
theorem binaryExponent_bounds {num den : Nat} (hnum : 0 < num) (hden : 0 < den) :
    (2 : ℚ) ^ binaryExponent num den ≤ (num : ℚ) / den
      ∧ (num : ℚ) / den < (2 : ℚ) ^ (binaryExponent num den + 1) := by
  have hd : (0 : ℚ) < den := by exact_mod_cast hden
  have hnumLow : (2 : ℚ) ^ (num.log2 : Int) ≤ num := by
    rw [zpow_natCast]
    exact_mod_cast Nat.log2_self_le hnum.ne'
  have hnumHigh : (num : ℚ) < (2 : ℚ) ^ ((num.log2 : Int) + 1) := by
    rw [← Nat.cast_succ, zpow_natCast]
    exact_mod_cast Nat.lt_log2_self
  have hdenLow : (2 : ℚ) ^ (den.log2 : Int) ≤ den := by
    rw [zpow_natCast]
    exact_mod_cast Nat.log2_self_le hden.ne'
  have hdenHigh : (den : ℚ) < (2 : ℚ) ^ ((den.log2 : Int) + 1) := by
    rw [← Nat.cast_succ, zpow_natCast]
    exact_mod_cast Nat.lt_log2_self
  -- the difference of the two logarithms is right or one too large
  have hlow : (2 : ℚ) ^ ((num.log2 : Int) - den.log2 - 1) ≤ (num : ℚ) / den := by
    rw [le_div_iff₀ hd]
    calc (2 : ℚ) ^ ((num.log2 : Int) - den.log2 - 1) * den
        ≤ (2 : ℚ) ^ ((num.log2 : Int) - den.log2 - 1) * (2 : ℚ) ^ ((den.log2 : Int) + 1) := by
          gcongr
      _ = (2 : ℚ) ^ (num.log2 : Int) := by
          rw [← zpow_add₀ (by norm_num)]
          congr 1
          omega
      _ ≤ num := hnumLow
  have hhigh : (num : ℚ) / den < (2 : ℚ) ^ ((num.log2 : Int) - den.log2 + 1) := by
    rw [div_lt_iff₀ hd]
    calc (num : ℚ) < (2 : ℚ) ^ ((num.log2 : Int) + 1) := hnumHigh
      _ = (2 : ℚ) ^ ((num.log2 : Int) - den.log2 + 1) * (2 : ℚ) ^ (den.log2 : Int) := by
          rw [← zpow_add₀ (by norm_num)]
          congr 1
          omega
      _ ≤ (2 : ℚ) ^ ((num.log2 : Int) - den.log2 + 1) * den := by gcongr
  unfold binaryExponent
  simp only [mul_powDen_lt_iff (by decide : 0 < 2) hden, Nat.cast_ofNat]
  split
  · rename_i hless
    exact ⟨hlow, by simpa using hless⟩
  · rename_i hless
    exact ⟨not_lt.1 hless, hhigh⟩

/-! ## Division with rounding -/

/-- **Division rounds to the number within a half**, and at a half to the even one. -/
theorem roundDiv_eq {num den n : Nat} (hden : 0 < den) (hlow : (n : ℚ) - 1 / 2 ≤ (num : ℚ) / den)
    (hhigh : (num : ℚ) / den ≤ n + 1 / 2)
    (hodd : n % 2 = 1 → (n : ℚ) - 1 / 2 < (num : ℚ) / den ∧ (num : ℚ) / den < n + 1 / 2) :
    roundDiv num den = n := by
  have hd : (0 : ℚ) < den := by exact_mod_cast hden
  -- the same bounds among the natural numbers
  have hlow' : 2 * (den * n) ≤ 2 * num + den := by
    rw [le_div_iff₀ hd] at hlow
    have : (2 * (den * n) : ℚ) ≤ 2 * num + den := by linarith
    exact_mod_cast this
  have hhigh' : 2 * num ≤ 2 * (den * n) + den := by
    rw [div_le_iff₀ hd] at hhigh
    have : (2 * num : ℚ) ≤ 2 * (den * n) + den := by linarith
    exact_mod_cast this
  have hodd' : n % 2 = 1 → 2 * (den * n) < 2 * num + den ∧ 2 * num < 2 * (den * n) + den := by
    intro hn
    obtain ⟨hl, hh⟩ := hodd hn
    rw [lt_div_iff₀ hd] at hl
    rw [div_lt_iff₀ hd] at hh
    have hl' : (2 * (den * n) : ℚ) < 2 * num + den := by linarith
    have hh' : (2 * num : ℚ) < 2 * (den * n) + den := by linarith
    exact ⟨by exact_mod_cast hl', by exact_mod_cast hh'⟩
  have hnum : den * (num / den) + num % den = num := Nat.div_add_mod num den
  have hmod : num % den < den := Nat.mod_lt num hden
  unfold roundDiv
  simp only
  generalize num / den = q at *
  generalize num % den = r at *
  -- the quotient is the number or the one before it
  have hle : q ≤ n := by
    by_contra hgt
    have := Nat.mul_le_mul_left den (show n + 1 ≤ q by omega)
    rw [Nat.mul_succ] at this
    omega
  have hge : n ≤ q + 1 := by
    by_contra hlt
    have := Nat.mul_le_mul_left den (show q + 2 ≤ n by omega)
    rw [Nat.mul_add] at this
    omega
  rcases Nat.lt_or_ge q n with hlt | hge'
  · have hn : n = q + 1 := by omega
    subst hn
    rw [Nat.mul_succ] at *
    rw [if_pos (by omega)]
  · have hn : n = q := by omega
    subst hn
    rw [if_neg (by omega)]

end Nearest

/-! ## The interval of a double -/

namespace Double

/-- How far below a double its interval reaches, in quarters of its last binary place. Below a power
of two the neighbour is only half as far. -/
def reach (mantissa : Nat) (exponent : Int) : Nat :=
  if mantissa = hidden ∧ exponent ≠ leastExponent then 1 else 2

/-- **The numbers that round to a double.** The two ends belong to it when the mantissa is even. -/
structure RoundsTo (mantissa : Nat) (exponent : Int) (x : ℚ) : Prop where
  low : (4 * mantissa - reach mantissa exponent : ℚ) * 2 ^ (exponent - 2) ≤ x
  high : x ≤ (4 * mantissa + 2 : ℚ) * 2 ^ (exponent - 2)
  odd : mantissa % 2 = 1 →
    (4 * mantissa - reach mantissa exponent : ℚ) * 2 ^ (exponent - 2) < x
      ∧ x < (4 * mantissa + 2 : ℚ) * 2 ^ (exponent - 2)

theorem RoundsTo.of_lt {mantissa : Nat} {exponent : Int} {x : ℚ}
    (hlow : (4 * mantissa - reach mantissa exponent : ℚ) * 2 ^ (exponent - 2) < x)
    (hhigh : x < (4 * mantissa + 2 : ℚ) * 2 ^ (exponent - 2)) : RoundsTo mantissa exponent x :=
  ⟨hlow.le, hhigh.le, fun _ => ⟨hlow, hhigh⟩⟩

theorem cast_hidden : ((hidden : Nat) : ℚ) = 4503599627370496 := rfl

theorem reach_le_two (mantissa : Nat) (exponent : Int) : reach mantissa exponent ≤ 2 := by
  unfold reach
  split <;> omega

theorem reach_pos (mantissa : Nat) (exponent : Int) : 0 < reach mantissa exponent := by
  unfold reach
  split <;> omega

/-- What rounds to a double that is not zero is at least half of its last binary place. -/
theorem RoundsTo.le_of_pos {mantissa : Nat} {exponent : Int} {x : ℚ}
    (h : RoundsTo mantissa exponent x) (hm : 0 < mantissa) : (2 : ℚ) ^ (exponent - 1) ≤ x := by
  have hreach : (reach mantissa exponent : ℚ) ≤ 2 := by exact_mod_cast reach_le_two _ _
  have hone : (1 : ℚ) ≤ mantissa := by exact_mod_cast hm
  have hunit : (0 : ℚ) < 2 ^ (exponent - 2) := by positivity
  have hhalf : (2 : ℚ) ^ (exponent - 1) = 2 * 2 ^ (exponent - 2) := by
    rw [show exponent - 1 = 1 + (exponent - 2) by ring, zpow_add₀ (by norm_num), zpow_one]
  calc (2 : ℚ) ^ (exponent - 1) = 2 * 2 ^ (exponent - 2) := hhalf
    _ ≤ (4 * mantissa - reach mantissa exponent) * 2 ^ (exponent - 2) := by
        gcongr
        linarith
    _ ≤ x := h.low

/-- What rounds to a double is below the next power of two after the largest mantissa. -/
theorem RoundsTo.lt_of_legal {mantissa : Nat} {exponent : Int} {x : ℚ}
    (h : RoundsTo mantissa exponent x) (hlegal : Legal mantissa exponent) :
    x < (2 : ℚ) ^ (exponent + (53 : Nat)) := by
  have hlt : mantissa + 1 ≤ 2 * hidden := hlegal.mantissa_lt
  have hmantissa : (mantissa : ℚ) + 1 ≤ 2 * hidden := by exact_mod_cast hlt
  rw [cast_hidden] at hmantissa
  have hunit : (0 : ℚ) < 2 ^ (exponent - 2) := by positivity
  calc x ≤ (4 * mantissa + 2) * 2 ^ (exponent - 2) := h.high
    _ < 2 ^ (53 + 2) * 2 ^ (exponent - 2) := by
        gcongr
        norm_num
        linarith
    _ = 2 ^ (exponent + (53 : Nat)) := (two_zpow_add_eq exponent 53).symm

end Double

namespace Nearest

open Double (Legal RoundsTo reach reach_le_two magnitude leastExponent)

section Interval

variable {num den mantissa : Nat} {exponent : Int}

/-- The binary exponent in the interval of a double is at most that of the double. -/
theorem binaryExponent_le (hnum : 0 < num) (hden : 0 < den) (hlegal : Legal mantissa exponent)
    (h : RoundsTo mantissa exponent ((num : ℚ) / den)) :
    binaryExponent num den ≤ exponent + 52 := by
  have hlt := (binaryExponent_bounds hnum hden).1.trans_lt (h.lt_of_legal hlegal)
  have := (zpow_lt_zpow_iff_right₀ (by norm_num)).1 hlt
  omega

/-- And at least one less, for a mantissa with all its bits. -/
theorem le_binaryExponent (hnum : 0 < num) (hden : 0 < den) (hm : Double.hidden ≤ mantissa)
    (h : RoundsTo mantissa exponent ((num : ℚ) / den)) :
    exponent + 51 ≤ binaryExponent num den := by
  have hpos : (0 : ℚ) < 2 ^ (exponent - 2) := by positivity
  have hm' : (Double.hidden : ℚ) ≤ mantissa := by exact_mod_cast hm
  have hreach : (reach mantissa exponent : ℚ) ≤ 2 := by exact_mod_cast reach_le_two _ _
  have hlt : (2 : ℚ) ^ (exponent + (51 : Nat)) < 2 ^ (binaryExponent num den + 1) := by
    calc (2 : ℚ) ^ (exponent + (51 : Nat)) = 2 ^ (51 + 2) * 2 ^ (exponent - 2) :=
          two_zpow_add_eq exponent 51
      _ ≤ (4 * mantissa - reach mantissa exponent : ℚ) * 2 ^ (exponent - 2) := by
          apply mul_le_mul_of_nonneg_right _ hpos.le
          rw [Double.cast_hidden] at hm'
          norm_num
          linarith
      _ ≤ (num : ℚ) / den := h.low
      _ < 2 ^ (binaryExponent num den + 1) := (binaryExponent_bounds hnum hden).2
  have := (zpow_lt_zpow_iff_right₀ (by norm_num)).1 hlt
  omega

/-- Where the place is that of the double, division gives the mantissa. -/
theorem roundDiv_of_roundsTo (hden : 0 < den)
    (h : RoundsTo mantissa exponent ((num : ℚ) / den)) :
    roundDiv (num * powDen 2 exponent) (den * powNum 2 exponent) = mantissa := by
  have hpos : (0 : ℚ) < 2 ^ exponent := by positivity
  have hreach : (reach mantissa exponent : ℚ) ≤ 2 := by exact_mod_cast reach_le_two _ _
  have hquarter : (2 : ℚ) ^ (exponent - 2) = 2 ^ exponent / 4 := by
    have := two_zpow_eq_quarters exponent
    linarith
  obtain ⟨hlow, hhigh, hodd⟩ := h
  rw [hquarter] at hlow hhigh hodd
  have hscaled := mul_powDen_div (by decide : 0 < 2) num den exponent
  rw [Nat.cast_ofNat] at hscaled
  refine roundDiv_eq (Nat.mul_pos hden (powNum_pos (by decide) exponent)) ?_ ?_ fun hm => ⟨?_, ?_⟩
  · rw [hscaled, le_div_iff₀ hpos]
    nlinarith
  · rw [hscaled, div_le_iff₀ hpos]
    linarith
  · rw [hscaled, lt_div_iff₀ hpos]
    nlinarith [(hodd hm).1]
  · rw [hscaled, div_lt_iff₀ hpos]
    linarith [(hodd hm).2]

/-- Just below a power of two the place is one less, and the division carries into the power. -/
theorem roundDiv_below_power (hden : 0 < den) (hexponent : exponent ≠ leastExponent)
    (h : RoundsTo Double.hidden exponent ((num : ℚ) / den))
    (hbelow : (num : ℚ) / den < 2 ^ (exponent + (52 : Nat))) :
    roundDiv (num * powDen 2 (exponent - 1)) (den * powNum 2 (exponent - 1))
      = 2 * Double.hidden := by
  have hpos : (0 : ℚ) < 2 ^ (exponent - 1) := by positivity
  have hhalf : (2 : ℚ) ^ (exponent - 2) = 2 ^ (exponent - 1) / 2 := by
    rw [show exponent - 2 = exponent - 1 - 1 by omega, zpow_sub_one₀ (by norm_num)]
    rfl
  have hreach : reach Double.hidden exponent = 1 := by simp [reach, hexponent]
  have hlow := h.low
  rw [hreach, hhalf] at hlow
  rw [two_zpow_add_eq, hhalf] at hbelow
  have hscaled := mul_powDen_div (by decide : 0 < 2) num den (exponent - 1)
  rw [Nat.cast_ofNat] at hscaled
  refine roundDiv_eq (Nat.mul_pos hden (powNum_pos (by decide) _)) ?_ ?_ fun hm => absurd hm ?_
  · rw [hscaled, le_div_iff₀ hpos]
    push_cast at hlow ⊢
    linarith
  · rw [hscaled, div_le_iff₀ hpos]
    push_cast
    rw [Double.cast_hidden]
    norm_num at hbelow
    linarith
  · decide

/-- **Every number of the interval of a double gets the bits of the double.** -/
theorem magnitudeBits_of_roundsTo (hnum : 0 < num) (hden : 0 < den)
    (hlegal : Legal mantissa exponent) (h : RoundsTo mantissa exponent ((num : ℚ) / den)) :
    magnitudeBits num den = magnitude mantissa exponent := by
  have hle := binaryExponent_le hnum hden hlegal h
  have hleast := hlegal.least_le
  by_cases hplace : exponent = leastExponent ∨ exponent + 52 ≤ binaryExponent num den
  · -- the usual place
    have hp : placeExponent num den = exponent := by
      unfold placeExponent
      simp only
      split <;> omega
    rw [magnitudeBits, hp, roundDiv_of_roundsTo hden h, magnitude]
  · -- the number lies below the power of two that the double is
    push Not at hplace
    obtain ⟨hexponent, hless⟩ := hplace
    have hnormal : Double.hidden ≤ mantissa := hlegal.normal.resolve_left hexponent
    have hge := le_binaryExponent hnum hden hnormal h
    have hE : binaryExponent num den = exponent + 51 := by omega
    have hbelow : (num : ℚ) / den < 2 ^ (exponent + (52 : Nat)) := by
      have := (binaryExponent_bounds hnum hden).2
      rw [hE] at this
      exact this.trans_eq (by congr 1; omega)
    have hm : mantissa = Double.hidden := by
      have hpos : (0 : ℚ) < 2 ^ (exponent - 2) := by positivity
      have hreach : (reach mantissa exponent : ℚ) ≤ 2 := by exact_mod_cast reach_le_two _ _
      have hlt := h.low.trans_lt hbelow
      rw [two_zpow_add_eq, mul_lt_mul_iff_left₀ hpos] at hlt
      norm_num at hlt
      have hnext : (mantissa : ℚ) < Double.hidden + 1 := by
        rw [Double.cast_hidden]
        linarith
      have : mantissa < Double.hidden + 1 := by exact_mod_cast hnext
      omega
    subst hm
    have hp : placeExponent num den = exponent - 1 := by
      unfold placeExponent
      simp only
      split <;> omega
    have hcount : (exponent - leastExponent).toNat = (exponent - 1 - leastExponent).toNat + 1 := by
      omega
    rw [magnitudeBits, hp, roundDiv_below_power hden hexponent h hbelow, magnitude, hcount]
    ring

end Interval

end Nearest

end L32
