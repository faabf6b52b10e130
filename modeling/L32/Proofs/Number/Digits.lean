import L32.Json.Value
import Mathlib

set_option autoImplicit false

/-! # What decimals and numerals denote

A digit string denotes a natural number, and so a `Decimal` a rational one (`Decimal.magnitude`). A
numeral is read as a whole number, `Numeral.coefficient`, times a power of ten. However a decimal is
laid out as a numeral, with an exponent or without, the number stays the same
(`ofDecimal_magnitude`): the layout only moves zeros between the digits and the power. -/

namespace L32

/-! ## Digit strings -/

theorem foldl_digits (ds : List Digit) (n : Nat) :
    ds.foldl (fun m d => 10 * m + d.val) n = n * 10 ^ ds.length + ofDigits ds := by
  induction ds using List.reverseRecOn with
  | nil => simp [ofDigits]
  | append_singleton ds d ih =>
      rw [List.foldl_append, ih, ofDigits_append_singleton, List.length_append]
      simp only [List.foldl_cons, List.foldl_nil, List.length_singleton]
      ring

theorem ofDigits_append (as bs : List Digit) :
    ofDigits (as ++ bs) = ofDigits as * 10 ^ bs.length + ofDigits bs := by
  rw [ofDigits, List.foldl_append, foldl_digits bs]
  rfl

theorem ofDigits_replicate_zero (n : Nat) : ofDigits (List.replicate n 0) = 0 := by
  induction n with
  | zero => rfl
  | succ n ih =>
      rw [List.replicate_succ', ofDigits_append_singleton, ih]
      rfl

theorem ofDigits_lt (ds : List Digit) : ofDigits ds < 10 ^ ds.length := by
  induction ds using List.reverseRecOn with
  | nil => decide
  | append_singleton ds d ih =>
      rw [ofDigits_append_singleton, List.length_append, List.length_singleton, pow_succ]
      omega

theorem digitsOf_ne_nil (n : Nat) : digitsOf n ≠ [] := by
  rw [digitsOf]
  split
  · exact List.cons_ne_nil _ _
  · exact List.append_ne_nil_of_right_ne_nil _ (List.cons_ne_nil _ _)

/-- Only zeros are stripped. -/
theorem exists_stripZeros_append (ds : List Digit) :
    ∃ n, ds = Shortest.stripZeros ds ++ List.replicate n 0 := by
  cases ds with
  | nil => exact ⟨0, rfl⟩
  | cons d ds =>
      have hsplit : ds = (ds.reverse.dropWhile (· = 0)).reverse
          ++ (ds.reverse.takeWhile (· = 0)).reverse := by
        rw [← List.reverse_append, List.takeWhile_append_dropWhile, List.reverse_reverse]
      have hzeros : ∀ c ∈ (ds.reverse.takeWhile (· = 0)).reverse, c = 0 := by
        intro c hc
        have := List.mem_takeWhile_imp (List.mem_reverse.1 hc)
        simpa using this
      refine ⟨(ds.reverse.takeWhile (· = 0)).reverse.length, ?_⟩
      rw [← List.eq_replicate_of_mem hzeros]
      show d :: ds = d :: (_ ++ _)
      rw [← hsplit]

theorem stripZeros_ne_nil {ds : List Digit} (h : ds ≠ []) : Shortest.stripZeros ds ≠ [] := by
  cases ds with
  | nil => exact absurd rfl h
  | cons d ds => exact List.cons_ne_nil _ _

/-- What is stripped is a power of ten. -/
theorem exists_eq_ofDigits_stripZeros (c : Nat) :
    ∃ n, (digitsOf c).length = (Shortest.stripZeros (digitsOf c)).length + n
      ∧ c = ofDigits (Shortest.stripZeros (digitsOf c)) * 10 ^ n := by
  obtain ⟨n, hn⟩ := exists_stripZeros_append (digitsOf c)
  refine ⟨n, ?_, ?_⟩
  · conv_lhs => rw [hn]
    rw [List.length_append, List.length_replicate]
  · conv_lhs => rw [← ofDigits_digitsOf c, hn]
    rw [ofDigits_append, ofDigits_replicate_zero, List.length_replicate, Nat.add_zero]

theorem ofDigits_stripZeros_le (c : Nat) : ofDigits (Shortest.stripZeros (digitsOf c)) ≤ c := by
  obtain ⟨n, _, hc⟩ := exists_eq_ofDigits_stripZeros c
  conv_rhs => rw [hc]
  exact Nat.le_mul_of_pos_right _ (by positivity)

/-! ## Decimals -/

/-- The number that a decimal denotes, without its sign. -/
def Decimal.magnitude (d : Decimal) : ℚ :=
  ofDigits d.digits * 10 ^ (d.exponent + 1 - d.digits.length)

/-- The decimal of a coefficient and a power of ten, with the zeros at its end stripped, denotes
their product. -/
theorem magnitude_stripZeros (negative : Bool) (c : Nat) (power : Int) :
    (Decimal.mk negative (Shortest.stripZeros (digitsOf c))
        (power + ((digitsOf c).length - 1 : Nat))).magnitude = c * 10 ^ power := by
  obtain ⟨n, hlength, hc⟩ := exists_eq_ofDigits_stripZeros c
  have hpos : 0 < (digitsOf c).length := List.length_pos_of_ne_nil (digitsOf_ne_nil c)
  have hpower : power + ((digitsOf c).length - 1 : Nat) + 1
      - (Shortest.stripZeros (digitsOf c)).length = n + power := by omega
  show (ofDigits (Shortest.stripZeros (digitsOf c)) : ℚ) * 10 ^ (_ : Int) = c * 10 ^ power
  rw [hpower, zpow_add₀ (by norm_num), zpow_natCast, ← mul_assoc]
  conv_rhs => rw [hc]
  push_cast
  ring

/-- **The layout without an exponent** multiplies the digits by a power of ten, if the point is far
behind them, and takes it from the exponent. -/
theorem Decimal.exists_plain_eq (d : Decimal) :
    ∃ j : Nat, ofDigits d.whole * 10 ^ d.fraction.length + ofDigits d.fraction
        = ofDigits d.digits * 10 ^ j
      ∧ (j : Int) - d.fraction.length = d.exponent + 1 - d.digits.length
      ∧ (j = 0 ∨ d.fraction = [] ∧ (d.digits.length + j : Nat) = d.point) := by
  by_cases hpoint : d.point ≤ 0
  · -- the digits come after the point
    have hwhole : d.whole = [0] := if_pos hpoint
    have hfraction : d.fraction = List.replicate (-d.point).toNat 0 ++ d.digits := if_pos hpoint
    refine ⟨0, ?_, ?_, .inl rfl⟩
    · rw [hwhole, hfraction, ofDigits_append, ofDigits_replicate_zero]
      simp [ofDigits]
    · rw [hfraction, List.length_append, List.length_replicate]
      simp only [point] at *
      omega
  · have hwhole : d.whole = d.digits.take d.point.toNat
        ++ List.replicate (d.point.toNat - d.digits.length) 0 := if_neg hpoint
    have hfraction : d.fraction = d.digits.drop d.point.toNat := if_neg hpoint
    by_cases hlong : d.digits.length ≤ d.point.toNat
    · -- the digits end before the point, and zeros follow
      have hnil : d.fraction = [] := by rw [hfraction, List.drop_eq_nil_of_le hlong]
      refine ⟨d.point.toNat - d.digits.length, ?_, ?_, .inr ⟨hnil, ?_⟩⟩
      · rw [hwhole, hnil, List.take_of_length_le hlong, ofDigits_append, ofDigits_replicate_zero,
          List.length_replicate]
        simp [ofDigits]
      · rw [hnil, List.length_nil]
        simp only [point] at *
        omega
      · omega
    · -- the point stands among the digits
      have hsplit : ofDigits (d.digits.take d.point.toNat)
            * 10 ^ (d.digits.drop d.point.toNat).length
          + ofDigits (d.digits.drop d.point.toNat) = ofDigits d.digits := by
        rw [← ofDigits_append, List.take_append_drop]
      have hzeros : d.point.toNat - d.digits.length = 0 := by omega
      refine ⟨0, ?_, ?_, .inl rfl⟩
      · rw [hwhole, hfraction, hzeros, List.replicate_zero, List.append_nil, hsplit, pow_zero,
          Nat.mul_one]
      · rw [hfraction, List.length_drop]
        simp only [point] at *
        omega

/-- One digit before the point and the others after it are all the digits. -/
theorem Decimal.scientific_eq (d : Decimal) :
    ofDigits (d.digits.take 1) * 10 ^ (d.digits.drop 1).length + ofDigits (d.digits.drop 1)
      = ofDigits d.digits := by
  rw [← ofDigits_append, List.take_append_drop]

/-! ## Numerals -/

namespace Numeral

/-- All digits of a numeral as one number. -/
def coefficient (n : Numeral) : Nat :=
  n.fraction.foldl (fun m d => 10 * m + d.val) n.whole

/-- The power of ten that belongs to the coefficient. -/
def power (n : Numeral) : Int :=
  n.exponent - n.fraction.length

theorem toFloat?_eq (n : Numeral) :
    n.toFloat? = nearestDouble? n.negative n.coefficient n.power := rfl

theorem coefficient_eq (n : Numeral) :
    n.coefficient = n.whole * 10 ^ n.fraction.length + ofDigits n.fraction :=
  foldl_digits n.fraction n.whole

@[simp] theorem ofDecimal_negative (d : Decimal) : (ofDecimal d).negative = d.negative := by
  unfold ofDecimal
  split <;> rfl

/-- **The layout of a decimal as a numeral** multiplies the digits by a power of ten, of at most the
seventeenth, and takes it from the exponent. -/
theorem exists_ofDecimal_eq {d : Decimal} (hdigits : d.digits ≠ []) :
    ∃ j : Nat, j ≤ 17 ∧ (ofDecimal d).coefficient = ofDigits d.digits * 10 ^ j
      ∧ (ofDecimal d).power + j = d.exponent + 1 - d.digits.length := by
  have hlength : 0 < d.digits.length := List.length_pos_of_ne_nil hdigits
  unfold ofDecimal
  split
  · rename_i hplain
    obtain ⟨j, hcoefficient, hpower, hfar⟩ := d.exists_plain_eq
    have hexponent : d.point = d.exponent + 1 := rfl
    by_cases hnil : d.fraction = []
    · -- without a fraction there is one more zero after the point
      refine ⟨j + 1, by omega, ?_, ?_⟩
      · rw [hnil] at hcoefficient
        rw [coefficient_eq]
        simp only [if_pos hnil]
        rw [pow_succ, ← mul_assoc, ← hcoefficient]
        simp [ofDigits]
      · rw [hnil] at hpower
        simp only [power, if_pos hnil, List.length_singleton, List.length_nil] at hpower ⊢
        omega
    · refine ⟨j, ?_, ?_, ?_⟩
      · rcases hfar with rfl | ⟨hfar, _⟩
        · omega
        · exact absurd hfar hnil
      · rw [coefficient_eq]
        simp only [if_neg hnil]
        exact hcoefficient
      · simp only [power, if_neg hnil]
        omega
  · -- one digit before the point, and an exponent
    refine ⟨0, by omega, ?_, ?_⟩
    · rw [coefficient_eq]
      simpa using d.scientific_eq
    · simp only [power, List.length_drop]
      omega

/-- A power of ten may be moved between the digits and the exponent. -/
theorem magnitude_of_shift {n : Numeral} {d : Decimal} {j : Nat}
    (hcoefficient : n.coefficient = ofDigits d.digits * 10 ^ j)
    (hpower : n.power + j = d.exponent + 1 - d.digits.length) :
    (n.coefficient : ℚ) * 10 ^ n.power = d.magnitude := by
  rw [hcoefficient, Decimal.magnitude, ← hpower, Nat.cast_mul, Nat.cast_pow, Nat.cast_ofNat,
    mul_assoc, add_comm, zpow_add₀ (by norm_num), zpow_natCast]

/-- However a decimal is laid out, the numeral denotes the same number. -/
theorem ofDecimal_magnitude {d : Decimal} (hdigits : d.digits ≠ []) :
    ((ofDecimal d).coefficient : ℚ) * 10 ^ (ofDecimal d).power = d.magnitude := by
  obtain ⟨j, _, hcoefficient, hpower⟩ := exists_ofDecimal_eq hdigits
  exact magnitude_of_shift hcoefficient hpower

/-- The layout adds few zeros. -/
theorem ofDecimal_coefficient_le {d : Decimal} (hdigits : d.digits ≠ []) :
    (ofDecimal d).coefficient ≤ ofDigits d.digits * 10 ^ 17 := by
  obtain ⟨j, hj, hcoefficient, _⟩ := exists_ofDecimal_eq hdigits
  rw [hcoefficient]
  exact Nat.mul_le_mul_left _ (Nat.pow_le_pow_right (by decide) hj)

end Numeral

end L32
