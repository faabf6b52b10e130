import L32.Number.Nearest
import Mathlib

set_option autoImplicit false

/-! # Doubles and their bits

The bits of a finite double without its sign count the doubles from zero upwards: those of
`mantissa · 2 ^ exponent` are `Double.magnitude mantissa exponent`. `Double.Legal` says which pairs
of mantissa and exponent a double can have.

`finite_of_ofFloat` takes a finite double apart, and `isFinite_ofBits` puts one together from bits
below those of the infinities. There are two infinities (`eq_of_ofFloat_infinite`) and one double
that is not a number (`eq_of_ofFloat_notANumber`). A double is determined by its bits, so a decimal
is read back as soon as its magnitude comes out right (`nearestDouble?_of_bits?`). -/

namespace L32

namespace Double

/-- The mantissas and exponents of finite doubles: either the exponent is the least one, or the
mantissa has all its fifty-three bits. -/
structure Legal (mantissa : Nat) (exponent : Int) : Prop where
  mantissa_lt : mantissa < 2 * hidden
  least_le : leastExponent ≤ exponent
  exponent_lt : exponent < leastExponent + 2046
  normal : exponent = leastExponent ∨ hidden ≤ mantissa

/-- The bits of a double without its sign. -/
def magnitude (mantissa : Nat) (exponent : Int) : Nat :=
  (exponent - leastExponent).toNat * hidden + mantissa

def signBits (negative : Bool) : Nat :=
  if negative then signBit else 0

theorem Legal.magnitude_lt {mantissa : Nat} {exponent : Int} (h : Legal mantissa exponent) :
    magnitude mantissa exponent < topField * hidden := by
  have hm := h.mantissa_lt
  have hlow := h.least_le
  have hhigh := h.exponent_lt
  simp only [magnitude, topField, hidden, leastExponent] at *
  omega

/-- The sign is the top bit, and below it are the field and the fraction. -/
theorem eq_sign_add_field {bits : Nat} (hbits : bits < 2 ^ 64) :
    bits = signBits (decide (signBit ≤ bits)) + (bits / hidden % 2048 * hidden + bits % hidden) := by
  have hfield : bits % signBit = bits / hidden % 2048 * hidden + bits % hidden := by
    simp only [signBit, hidden]
    omega
  rw [← hfield]
  unfold signBits
  by_cases hneg : signBit ≤ bits
  · rw [if_pos (decide_eq_true hneg), signBit]
    rw [signBit] at hneg
    omega
  · rw [if_neg (by simpa using hneg), Nat.mod_eq_of_lt (by omega), Nat.zero_add]

/-- **A finite double taken apart**: its mantissa and exponent are legal, and sign and magnitude
make up its bits. -/
theorem finite_of_ofBits {bits : Nat} (hbits : bits < 2 ^ 64) {negative : Bool} {mantissa : Nat}
    {exponent : Int} (h : ofBits bits = .finite negative mantissa exponent) :
    Legal mantissa exponent ∧ bits = signBits negative + magnitude mantissa exponent := by
  have hbits := eq_sign_add_field hbits
  have hfraction : bits % hidden < hidden := Nat.mod_lt bits (by decide)
  have hlt : bits / hidden % 2048 < 2048 := Nat.mod_lt _ (by decide)
  unfold ofBits at h
  simp only at h
  split at h
  · split at h <;> cases h
  · rename_i htop
    split at h
    · rename_i hzero
      cases h
      rw [hzero] at hbits
      refine ⟨⟨by omega, Int.le_refl _, by simp [leastExponent], Or.inl rfl⟩, ?_⟩
      simp only [magnitude, Int.sub_self, Int.toNat_zero]
      omega
    · rename_i hzero
      cases h
      simp only [topField] at htop
      refine ⟨⟨by omega, by omega, by omega, Or.inr (by omega)⟩, ?_⟩
      have hcount : (leastExponent + (bits / hidden % 2048 - 1 : Nat) - leastExponent).toNat
          = bits / hidden % 2048 - 1 := by omega
      -- one is taken from the field, and its worth added to the fraction
      have hone : bits / hidden % 2048 * hidden
          = (bits / hidden % 2048 - 1) * hidden + hidden := by
        obtain ⟨f, hf⟩ := Nat.exists_eq_succ_of_ne_zero hzero
        rw [hf, Nat.succ_sub_one, Nat.succ_mul]
      rw [magnitude, hcount]
      omega

/-- An infinity is determined by its sign. -/
theorem infinite_of_ofBits {bits : Nat} (hbits : bits < 2 ^ 64) {negative : Bool}
    (h : ofBits bits = .infinite negative) : bits = signBits negative + topField * hidden := by
  have hbits := eq_sign_add_field hbits
  unfold ofBits at h
  simp only at h
  split at h
  · rename_i htop
    split at h
    · rename_i hfraction
      cases h
      rwa [htop, hfraction, Nat.add_zero] at hbits
    · cases h
  · split at h <;> cases h

theorem finite_of_ofFloat {x : Float} {negative : Bool} {mantissa : Nat} {exponent : Int}
    (h : ofFloat x = .finite negative mantissa exponent) :
    Legal mantissa exponent ∧ x.toBits.toNat = signBits negative + magnitude mantissa exponent :=
  finite_of_ofBits x.toBits.toNat_lt h

theorem eq_of_ofFloat_infinite {x : Float} {negative : Bool} (h : ofFloat x = .infinite negative) :
    x = Float.ofBits (signBits negative + topField * hidden).toUInt64 := by
  have hbits : (signBits negative + topField * hidden).toUInt64 = x.toBits := by
    rw [← infinite_of_ofBits x.toBits.toNat_lt h]
    exact UInt64.ofNat_toNat
  rw [hbits, Float.ofBits_toBits]

theorem notANumber_of_ofBits {bits : Nat} (h : ofBits bits = .notANumber) :
    bits / hidden % 2048 = topField ∧ bits % hidden ≠ 0 := by
  unfold ofBits at h
  simp only at h
  split at h
  · rename_i htop
    split at h
    · cases h
    · rename_i hfraction
      exact ⟨htop, hfraction⟩
  · split at h <;> cases h

/-- **There is one double that is not a number**: its bits are fixed. -/
theorem toBits_of_notANumber {x : Float} (h : ofFloat x = .notANumber) :
    x.toBits.toBitVec = Float.Model.UnpackedFloat.packedNaN Float.Model.Format.binary64 := by
  have hvalid : Float.Model.Format.binary64.Valid x.toBits.toBitVec := x.toModel.valid
  obtain ⟨htop, hfraction⟩ := notANumber_of_ofBits h
  apply hvalid.eq_packedNaN
  · rw [Float.Model.UnpackedFloat.unpackExponent_def]
    apply BitVec.eq_of_toNat_eq
    simpa [BitVec.extractLsb'_toNat, Nat.shiftRight_eq_div_pow, hidden, topField] using htop
  · rw [Float.Model.UnpackedFloat.unpackMantissa_def]
    intro hzero
    have hnat := congrArg BitVec.toNat hzero
    apply hfraction
    simpa [BitVec.extractLsb'_toNat, hidden] using hnat

theorem eq_of_ofFloat_notANumber {x y : Float} (hx : ofFloat x = .notANumber)
    (hy : ofFloat y = .notANumber) : x = y := by
  have hbits : x.toBits = y.toBits := by
    apply UInt64.toBitVec_inj.1
    rw [toBits_of_notANumber hx, toBits_of_notANumber hy]
  rw [← Float.ofBits_toBits x, hbits, Float.ofBits_toBits]

/-- Bits whose field is not the top one are those of the double they make: only the bits of a NaN
are changed. -/
theorem toBits_ofBits {bits : UInt64} (h : bits.toNat / hidden % 2048 ≠ topField) :
    (Float.ofBits bits).toBits = bits := by
  have hfield : @Float.Model.UnpackedFloat.unpackExponent Float.Model.Format.binary64 bits.toBitVec
      ≠ -1#11 := by
    intro hall
    apply h
    rw [Float.Model.UnpackedFloat.unpackExponent_def] at hall
    have hnat := congrArg BitVec.toNat hall
    simpa [BitVec.extractLsb'_toNat, Nat.shiftRight_eq_div_pow, hidden, topField] using hnat
  have hnan : @Float.Model.UnpackedFloat.isNaNBits Float.Model.Format.binary64 bits.toBitVec
      = false := by
    simp only [Float.Model.UnpackedFloat.isNaNBits, hfield, false_and, decide_false]
  have hpacked : @Float.Model.UnpackedFloat.pack Float.Model.Format.binary64
      (Float.Model.UnpackedFloat.unpack Float.Model.Format.binary64 bits.toBitVec)
      = bits.toBitVec := by
    rw [Float.Model.UnpackedFloat.pack_unpack, hnan]
    rfl
  show UInt64.ofBitVec (Float.Model.UnpackedFloat.pack Float.Model.Format.binary64
    (Float.Model.UnpackedFloat.unpack Float.Model.Format.binary64 bits.toBitVec)) = bits
  rw [hpacked]

/-- **A sign and a magnitude below that of the infinities** make a finite double. -/
theorem isFinite_ofBits (negative : Bool) {bits : Nat} (h : bits < topField * hidden) :
    isFinite (Float.ofBits (signBits negative + bits).toUInt64) = true := by
  have hsign : signBits negative = 0 ∨ signBits negative = signBit := by
    cases negative
    · exact Or.inl rfl
    · exact Or.inr rfl
  have hlt : signBits negative + bits < 2 ^ 64 := by
    simp only [signBit, topField, hidden] at *
    omega
  have hnat : (signBits negative + bits).toUInt64.toNat = signBits negative + bits :=
    UInt64.toNat_ofNat_of_lt' hlt
  -- the sign bit is a multiple of all the fields, so the field is that of the magnitude
  have hfield : (signBits negative + bits) / hidden % 2048 ≠ topField := by
    simp only [signBit, topField, hidden] at h hsign ⊢
    omega
  have hback : (Float.ofBits (signBits negative + bits).toUInt64).toBits
      = (signBits negative + bits).toUInt64 := toBits_ofBits (by rwa [hnat])
  unfold isFinite ofFloat ofBits
  simp only [hback, hnat, hfield, if_false]
  split
  · rfl
  · rename_i hother
    split at hother <;> exact absurd rfl (hother _ _ _)

end Double

/-! ## Reading a decimal -/

/-- The magnitude that is read is below that of the infinities. -/
theorem bits?_lt {coefficient : Nat} {exponent : Int} {bits : Nat}
    (h : Nearest.bits? coefficient exponent = some bits) :
    bits < Double.topField * Double.hidden := by
  have hpos : 0 < Double.topField * Double.hidden := by decide
  unfold Nearest.bits? at h
  simp only at h
  split at h
  · cases h
    exact hpos
  · split at h
    · cases h
    · split at h
      · cases h
        exact hpos
      · split at h
        · cases h
          assumption
        · cases h

/-- What is read is a finite double. -/
theorem isFinite_of_nearestDouble? {negative : Bool} {coefficient : Nat} {exponent : Int}
    {x : Float} (h : nearestDouble? negative coefficient exponent = some x) :
    isFinite x = true := by
  obtain ⟨bits, hbits, rfl⟩ := Option.map_eq_some_iff.1 h
  exact Double.isFinite_ofBits negative (bits?_lt hbits)

/-- A decimal with the sign and the magnitude of a finite double is read as that double. -/
theorem nearestDouble?_of_bits? {x : Float} {negative : Bool} {mantissa : Nat} {exponent : Int}
    (hx : Double.ofFloat x = .finite negative mantissa exponent) {coefficient : Nat} {power : Int}
    (h : Nearest.bits? coefficient power = some (Double.magnitude mantissa exponent)) :
    nearestDouble? negative coefficient power = some x := by
  have hbits : (Double.signBits negative + Double.magnitude mantissa exponent).toUInt64
      = x.toBits := by
    rw [← (Double.finite_of_ofFloat hx).2]
    exact UInt64.ofNat_toNat
  show (Nearest.bits? coefficient power).map
    (fun bits => Float.ofBits (Double.signBits negative + bits).toUInt64) = some x
  rw [h, Option.map_some, hbits, Float.ofBits_toBits]

end L32
