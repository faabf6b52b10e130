import L32.Proofs.Json.Scalars
import L32.Proofs.Number.ReadBack

set_option autoImplicit false

/-! # Decimals without an exponent

Written without an exponent, a decimal is the text of a numeral, `Decimal.plainNumeral`, if there is
no superfluous zero in front of its digits (`plain_eq_text`), and the numeral denotes the same
number (`plainNumeral_magnitude`). The digits that are chosen for a double are of this kind.

The text of a numeral determines the numeral, so the text of a finite double without an exponent
determines the number that it denotes and with it the double (`eq_of_plain_shortest_eq`). The
numeral itself need not be read for that, which is as well: it may have hundreds of digits. -/

namespace L32

/-! ## Digit strings -/

theorem ofDigits_cons (d : Digit) (ds : List Digit) :
    ofDigits (d :: ds) = d.val * 10 ^ ds.length + ofDigits ds := by
  have hone : ofDigits [d] = d.val := by simp [ofDigits]
  rw [← hone]
  exact ofDigits_append [d] ds

/-- A digit string that does not start with a zero is the one that is written for its number. -/
theorem digitsOf_ofDigits {d : Digit} (hd : d ≠ 0) (ds : List Digit) :
    digitsOf (ofDigits (d :: ds)) = d :: ds := by
  induction ds using List.reverseRecOn with
  | nil =>
      have hone : ofDigits [d] = d.val := by simp [ofDigits]
      rw [hone, digitsOf, dif_pos d.isLt]
  | append_singleton ds x ih =>
      have hpos : 0 < d.val := Nat.pos_of_ne_zero fun h => hd (Fin.ext h)
      have hfront : 0 < ofDigits (d :: ds) := by
        rw [ofDigits_cons]
        positivity
      have hx := x.isLt
      rw [← List.cons_append, ofDigits_append_singleton, digitsOf, dif_neg (by omega)]
      have hdiv : (10 * ofDigits (d :: ds) + x.val) / 10 = ofDigits (d :: ds) := by omega
      have hmod : (10 * ofDigits (d :: ds) + x.val) % 10 = x.val := by omega
      rw [hdiv, ih]
      congr

/-- The digits of a number other than zero do not start with a zero. -/
theorem exists_digitsOf_eq_cons {n : Nat} (hn : 0 < n) :
    ∃ d ds, d ≠ 0 ∧ digitsOf n = d :: ds := by
  cases hdigits : digitsOf n with
  | nil => exact absurd hdigits (digitsOf_ne_nil n)
  | cons d ds =>
      refine ⟨d, ds, ?_, rfl⟩
      rintro rfl
      cases ds with
      | nil =>
          have hzero := ofDigits_digitsOf n
          rw [hdigits] at hzero
          have : ofDigits [0] = 0 := rfl
          omega
      | cons e es => exact digitsOf_ne_zero_cons n e es hdigits

/-- The digits that are found for a double other than zero do not start with a zero: zeros are
stripped from the end only. -/
theorem exists_shortest_digits_eq_cons (tie : Tie) (negative : Bool) {mantissa : Nat}
    {exponent : Int} (hm : 0 < mantissa) (h : Double.Legal mantissa exponent) :
    ∃ first others, first ≠ 0
      ∧ (Decimal.shortest tie negative mantissa exponent).digits = first :: others := by
  obtain ⟨c, power, _, hround, hshortest⟩ := Shortest.exists_shortest_eq tie negative hm h
  obtain ⟨first, others, hfirst, hdigits⟩ := exists_digitsOf_eq_cons (hround.coefficient_pos hm)
  refine ⟨first, (others.reverse.dropWhile (· = 0)).reverse, hfirst, ?_⟩
  rw [hshortest, hdigits]
  rfl

/-! ## The numeral of a decimal -/

namespace Decimal

/-- The numeral that is written for a decimal without an exponent. -/
def plainNumeral (d : Decimal) : Numeral :=
  ⟨d.negative, ofDigits d.whole, d.fraction, 0⟩

variable {d : Decimal}

theorem digitsOf_ofDigits_whole {first : Digit} {others : List Digit} (hfirst : first ≠ 0)
    (hd : d.digits = first :: others) : digitsOf (ofDigits d.whole) = d.whole := by
  unfold Decimal.whole
  split
  · rw [digitsOf]
    rfl
  · rename_i hpoint
    obtain ⟨k, hk⟩ : ∃ k, d.point.toNat = k + 1 := ⟨d.point.toNat - 1, by omega⟩
    rw [hd, hk, List.take_succ_cons, List.cons_append]
    exact digitsOf_ofDigits hfirst _

/-- The text is that of the numeral, if the digits in front of the point are written as those of a
number are. -/
theorem plain_eq_text (h : digitsOf (ofDigits d.whole) = d.whole) :
    d.plain = d.plainNumeral.text := by
  unfold plain plainNumeral Numeral.text
  simp only [h]
  rw [if_pos trivial, String.append_empty]
  rfl

theorem plainNumeral_magnitude :
    (d.plainNumeral.coefficient : ℚ) * 10 ^ d.plainNumeral.power = d.magnitude := by
  obtain ⟨j, hcoefficient, hpower, _⟩ := d.exists_plain_eq
  apply Numeral.magnitude_of_shift (j := j)
  · rw [Numeral.coefficient_eq]
    exact hcoefficient
  · simp only [plainNumeral, Numeral.power]
    omega

/-- The digits of every finite double are laid out as a numeral, those of zero too. -/
theorem plain_shortest_eq_text (tie : Tie) (negative : Bool) {mantissa : Nat} {exponent : Int}
    (h : Double.Legal mantissa exponent) :
    (shortest tie negative mantissa exponent).plain
      = (shortest tie negative mantissa exponent).plainNumeral.text := by
  apply plain_eq_text
  rcases Nat.eq_zero_or_pos mantissa with rfl | hm
  · rw [digitsOf]
    rfl
  · obtain ⟨first, others, hfirst, hdigits⟩ := exists_shortest_digits_eq_cons tie negative hm h
    exact digitsOf_ofDigits_whole hfirst hdigits

end Decimal

/-! ## The double of a text -/

theorem Numeral.text_injective {n n' : Numeral} (h : n.text = n'.text) : n = n' := by
  have hread := Json.readNumeral?_text n Json.ends_nil
  rw [h, Json.readNumeral?_text n' Json.ends_nil, Option.some.injEq, Prod.mk.injEq] at hread
  exact hread.1.symm

/-- **A finite double is determined by its text without an exponent.** -/
theorem eq_of_plain_shortest_eq {x x' : Float} {tie : Tie} {negative negative' : Bool}
    {mantissa mantissa' : Nat} {exponent exponent' : Int}
    (hx : Double.ofFloat x = .finite negative mantissa exponent)
    (hx' : Double.ofFloat x' = .finite negative' mantissa' exponent')
    (h : (Decimal.shortest tie negative mantissa exponent).plain
      = (Decimal.shortest tie negative' mantissa' exponent').plain) : x = x' := by
  have hlegal := (Double.finite_of_ofFloat hx).1
  have hlegal' := (Double.finite_of_ofFloat hx').1
  rw [Decimal.plain_shortest_eq_text tie negative hlegal,
    Decimal.plain_shortest_eq_text tie negative' hlegal'] at h
  have hnumeral := Numeral.text_injective h
  have hnegative : negative = negative' := by
    have hsign := congrArg Numeral.negative hnumeral
    simpa only [Decimal.plainNumeral, Numeral.shortest_negative] using hsign
  subst hnegative
  set d := Decimal.shortest tie negative mantissa exponent
  set d' := Decimal.shortest tie negative mantissa' exponent'
  have hmagnitude : d.magnitude = d'.magnitude := by
    rw [← Decimal.plainNumeral_magnitude, hnumeral, Decimal.plainNumeral_magnitude]
  -- the same decimal in few digits is read as each of the two doubles
  have hread := nearestDouble?_of_bits? hx (Numeral.bits?_ofDecimal_shortest tie negative hlegal)
  have hread' := nearestDouble?_of_bits? hx' (Numeral.bits?_of_magnitude_shortest hlegal'
    ((Numeral.ofDecimal_magnitude (shortest_digits_ne_nil tie negative hlegal)).trans hmagnitude)
    (Numeral.ofDecimal_shortest_coefficient_le tie negative hlegal))
  rw [hread, Option.some.injEq] at hread'
  exact hread'

end L32
