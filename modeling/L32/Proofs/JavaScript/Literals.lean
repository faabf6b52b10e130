import L32.JavaScript.Literal
import L32.Proofs.Number.Plain

set_option autoImplicit false

/-! # JavaScript literals read back

A number in JavaScript's layout is the text of a numeral, `JavaScript.numeral`, which denotes the
same decimal (`decimalText_eq_text`, `numeral_magnitude`). So the text of a finite double other than
zero is read as that double (`exists_numberText_eq`). Of the other doubles, the two infinities have
texts of their own, while the two zeros share one, and so do all that are not numbers.

A string is spelled character by character, by the same letters as in JSON and by more codes
(`spelled_escape`). -/

namespace L32

namespace JavaScript

/-! ## Numbers -/

/-- The numeral that is written for a decimal. -/
def numeral (d : Decimal) : Numeral :=
  if -6 < d.point ∧ d.point ≤ 21 then ⟨d.negative, ofDigits d.whole, d.fraction, 0⟩
  else ⟨d.negative, ofDigits (d.digits.take 1), d.digits.drop 1, d.exponent⟩

@[simp] theorem numeral_negative (d : Decimal) : (numeral d).negative = d.negative := by
  unfold numeral
  split <;> rfl

section Layout

variable {d : Decimal} {first : Digit} {others : List Digit}

/-- **The text of a decimal is that of its numeral**, if there is no zero in front. -/
theorem decimalText_eq_text (hfirst : first ≠ 0) (hd : d.digits = first :: others) :
    decimalText d = (numeral d).text := by
  unfold decimalText numeral
  split
  · exact Decimal.plain_eq_text (Decimal.digitsOf_ofDigits_whole hfirst hd)
  · rename_i hfar
    have hexponent : d.exponent ≠ 0 := by
      intro hzero
      simp only [Decimal.point, hzero] at hfar
      omega
    have hone : digitsOf (ofDigits (d.digits.take 1)) = d.digits.take 1 := by
      rw [hd]
      exact digitsOf_ofDigits hfirst []
    simp only [Numeral.text, hone, if_neg hexponent, Decimal.scientific, Decimal.signText,
      String.append_assoc]

end Layout

/-- The layout multiplies the digits by a power of ten only where the number has at most twenty-one
digits before the point, and takes it from the exponent. -/
theorem exists_numeral_eq {d : Decimal} (hdigits : d.digits ≠ []) :
    ∃ j : Nat, (numeral d).coefficient = ofDigits d.digits * 10 ^ j
      ∧ (numeral d).power + j = d.exponent + 1 - d.digits.length
      ∧ (j = 0 ∨ d.digits.length + j ≤ 21) := by
  unfold numeral
  split
  · rename_i hplain
    obtain ⟨j, hcoefficient, hpower, hfar⟩ := d.exists_plain_eq
    refine ⟨j, ?_, ?_, ?_⟩
    · rw [Numeral.coefficient_eq]
      exact hcoefficient
    · simp only [Numeral.power]
      omega
    · omega
  · have hlength : 0 < d.digits.length := List.length_pos_of_ne_nil hdigits
    refine ⟨0, ?_, ?_, .inl rfl⟩
    · rw [Numeral.coefficient_eq, pow_zero, Nat.mul_one]
      exact d.scientific_eq
    · simp only [Numeral.power, List.length_drop]
      omega

theorem numeral_magnitude {d : Decimal} (hdigits : d.digits ≠ []) :
    ((numeral d).coefficient : ℚ) * 10 ^ (numeral d).power = d.magnitude := by
  obtain ⟨j, hcoefficient, hpower, _⟩ := exists_numeral_eq hdigits
  exact Numeral.magnitude_of_shift hcoefficient hpower

theorem numeral_coefficient_le {d : Decimal} (hdigits : d.digits ≠ [])
    (h : ofDigits d.digits ≤ 10 ^ 17) : (numeral d).coefficient ≤ 10 ^ 34 := by
  obtain ⟨j, hcoefficient, _, rfl | hj⟩ := exists_numeral_eq hdigits
  · rw [hcoefficient, pow_zero, Nat.mul_one]
    exact h.trans (by norm_num)
  · calc (numeral d).coefficient = ofDigits d.digits * 10 ^ j := hcoefficient
      _ ≤ 10 ^ d.digits.length * 10 ^ j := Nat.mul_le_mul_right _ (ofDigits_lt d.digits).le
      _ = 10 ^ (d.digits.length + j) := (pow_add 10 _ _).symm
      _ ≤ 10 ^ 34 := Nat.pow_le_pow_right (by decide) (by omega)

/-- The text of a finite double other than zero is that of its digits. -/
theorem numberText_eq {x : Float} {negative : Bool} {mantissa : Nat} {exponent : Int}
    (hx : Double.ofFloat x = .finite negative mantissa exponent) (hm : 0 < mantissa) :
    numberText x = decimalText (.shortest .up negative mantissa exponent) := by
  unfold numberText
  simp only [hx, if_neg hm.ne']

/-- **The text of a finite double other than zero is read as that double.** -/
theorem exists_numberText_eq {x : Float} {negative : Bool} {mantissa : Nat} {exponent : Int}
    (hx : Double.ofFloat x = .finite negative mantissa exponent) (hm : 0 < mantissa) :
    ∃ n : Numeral, numberText x = n.text ∧ n.toFloat? = some x := by
  have hlegal := (Double.finite_of_ofFloat hx).1
  have hne := shortest_digits_ne_nil .up negative hlegal
  obtain ⟨first, others, hfirst, hdigits⟩ := exists_shortest_digits_eq_cons .up negative hm hlegal
  refine ⟨numeral (.shortest .up negative mantissa exponent), ?_, ?_⟩
  · rw [numberText_eq hx hm]
    exact decimalText_eq_text hfirst hdigits
  · rw [Numeral.toFloat?_eq, numeral_negative, Numeral.shortest_negative]
    exact nearestDouble?_of_bits? hx (Numeral.bits?_of_magnitude_shortest hlegal
      (numeral_magnitude hne)
      (numeral_coefficient_le hne (ofDigits_shortest_le .up negative hlegal)))

def numeralChars : List Char :=
  ['-', '+', '.', 'e', '0', '1', '2', '3', '4', '5', '6', '7', '8', '9']

theorem mem_numeralChars_of_mem_digits {ds : List Digit} {c : Char}
    (h : c ∈ ds.map Digit.toChar) : c ∈ numeralChars := by
  have hdigit : ∀ d : Digit, d.toChar ∈ numeralChars := by decide
  obtain ⟨d, _, rfl⟩ := List.mem_map.1 h
  exact hdigit d

theorem mem_numeralChars {n : Numeral} {c : Char} (hc : c ∈ n.text.toList) :
    c ∈ numeralChars := by
  rw [Json.toList_text] at hc
  unfold Json.unsignedChars at hc
  simp only [List.mem_append] at hc
  rcases hc with hsign | hwhole | hfraction | hexponent
  · split at hsign
    · rw [List.mem_singleton.1 hsign]
      decide
    · cases hsign
  · exact mem_numeralChars_of_mem_digits hwhole
  · unfold Json.fractionChars at hfraction
    split at hfraction
    · cases hfraction
    · rcases List.mem_cons.1 hfraction with rfl | hfraction
      · decide
      · exact mem_numeralChars_of_mem_digits hfraction
  · unfold Json.exponentChars at hexponent
    split at hexponent
    · cases hexponent
    · rcases List.mem_cons.1 hexponent with rfl | hexponent
      · decide
      · rcases List.mem_cons.1 hexponent with rfl | hexponent
        · split <;> decide
        · exact mem_numeralChars_of_mem_digits hexponent

/-- The characters of all numbers, with the letters of `NaN` and `Infinity`. -/
def numberChars : List Char :=
  numeralChars ++ ['N', 'a', 'I', 'n', 'f', 'i', 't', 'y']

theorem mem_numberChars {x : Float} {c : Char} (hc : c ∈ (numberText x).toList) :
    c ∈ numberChars := by
  cases hx : Double.ofFloat x with
  | notANumber =>
      have hword : "NaN".toList ⊆ numberChars := by decide
      simp only [numberText, hx] at hc
      exact hword hc
  | infinite negative =>
      have hwords : "Infinity".toList ⊆ numberChars ∧ "-Infinity".toList ⊆ numberChars := by decide
      simp only [numberText, hx] at hc
      split at hc
      · exact hwords.2 hc
      · exact hwords.1 hc
  | finite negative mantissa exponent =>
      by_cases hm : mantissa = 0
      · have hzero : "0".toList ⊆ numberChars := by decide
        simp only [numberText, hx, if_pos hm] at hc
        exact hzero hc
      · obtain ⟨n, htext, _⟩ := exists_numberText_eq hx (Nat.pos_of_ne_zero hm)
        rw [htext] at hc
        exact List.mem_append_left _ (mem_numeralChars hc)

/-! ## Strings -/

/-- **What is written for a character is one piece.** -/
theorem spelled_escape (c : Char) : Json.Spelled (escape c) c := by
  unfold escape
  split
  iterate 7
    exact Json.spelled_short (by decide) rfl
  rename_i hslash hquote _ _ _ _ _
  split
  · rename_i hcontrol
    simp only [isControl, Bool.or_eq_true, Bool.and_eq_true, decide_eq_true_eq] at hcontrol
    exact Json.spelled_codeEscape (by omega)
  · rename_i hcontrol
    simp only [isControl, Bool.or_eq_true, Bool.and_eq_true, decide_eq_true_eq] at hcontrol
    exact Json.spelled_self hquote hslash (by omega)

end JavaScript

end L32
