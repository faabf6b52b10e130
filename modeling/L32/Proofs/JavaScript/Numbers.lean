import L32.Proofs.JavaScript.Literals

set_option autoImplicit false

/-! # JavaScript number texts denote their decimals

A `Decimal` is normal if its digits neither start nor end with a zero; what is found for a double
other than zero is normal (`shortest_normal`), and a normal decimal is determined by the number that
it denotes (`Decimal.Normal.eq_of_value_eq`).

On the other side stand the decimal literals of JavaScript: `Literal.read?` takes such a literal
apart, and `Literal.value` is the number that it stands for. The two sides meet in `LaidOut`, which
lists the four layouts of a decimal. Every count of zeros and every cut in it is an equation between
integers, so a layout exists only where no count is negative and no cut falls outside the digits;
`exists_laidOut` says that there always is one and that it is what is printed. -/

namespace L32

/-! ## Normal decimals -/

namespace Decimal

/-- There are digits, and they neither start nor end with a zero. -/
structure Normal (d : Decimal) : Prop where
  nonempty : d.digits ≠ []
  first : d.digits.head? ≠ some 0
  last : d.digits.getLast? ≠ some 0

/-- The number that a decimal denotes. -/
def value (d : Decimal) : ℚ :=
  if d.negative then -d.magnitude else d.magnitude

namespace Normal

variable {d d' : Decimal}

theorem exists_eq_cons (h : d.Normal) : ∃ first rest, first ≠ 0 ∧ d.digits = first :: rest := by
  cases hdigits : d.digits with
  | nil => exact absurd hdigits h.nonempty
  | cons first rest =>
      refine ⟨first, rest, ?_, rfl⟩
      rintro rfl
      exact h.first (by rw [hdigits, List.head?_cons])

/-- The digits are those that are written for their number. -/
theorem digitsOf_ofDigits (h : d.Normal) : digitsOf (ofDigits d.digits) = d.digits := by
  obtain ⟨first, rest, hfirst, hdigits⟩ := h.exists_eq_cons
  rw [hdigits]
  exact L32.digitsOf_ofDigits hfirst rest

/-- The digits make no multiple of ten. -/
theorem ofDigits_mod_ten (h : d.Normal) : ofDigits d.digits % 10 ≠ 0 := by
  rcases List.eq_nil_or_concat d.digits with hnil | ⟨front, last, hlast⟩
  · exact absurd hnil h.nonempty
  · have hne : last.val ≠ 0 := by
      intro hzero
      apply h.last
      rw [hlast, List.concat_eq_append, List.getLast?_append_cons, List.getLast?_singleton,
        Option.some_inj]
      exact Fin.ext hzero
    rw [hlast, List.concat_eq_append, ofDigits_append_singleton]
    omega

theorem magnitude_pos (h : d.Normal) : 0 < d.magnitude := by
  have hpos : 0 < ofDigits d.digits := by
    have := h.ofDigits_mod_ten
    omega
  unfold Decimal.magnitude
  positivity

/-- Of two normal decimals of one magnitude, neither has its last digit further to the left: the
digits of the other would then make a multiple of ten. -/
theorem le_of_magnitude_eq (h : d.Normal) (hmagnitude : d.magnitude = d'.magnitude) :
    d'.exponent + 1 - d'.digits.length ≤ d.exponent + 1 - d.digits.length := by
  by_contra hlt
  obtain ⟨n, hn⟩ : ∃ n : Nat, d'.exponent + 1 - d'.digits.length
      = (n + 1 : Nat) + (d.exponent + 1 - d.digits.length) :=
    ⟨(d'.exponent - d'.digits.length - (d.exponent - d.digits.length) - 1).toNat, by omega⟩
  have hten : (10 : ℚ) ^ (d.exponent + 1 - d.digits.length) ≠ 0 := by positivity
  unfold Decimal.magnitude at hmagnitude
  rw [hn, zpow_add₀ (by norm_num), zpow_natCast, ← mul_assoc] at hmagnitude
  have hmultiple : ofDigits d.digits = ofDigits d'.digits * 10 ^ (n + 1) := by
    exact_mod_cast mul_right_cancel₀ hten hmagnitude
  apply h.ofDigits_mod_ten
  rw [hmultiple, pow_succ, ← mul_assoc]
  exact Nat.mul_mod_left _ _

/-- A normal decimal is determined by its sign and the number that its digits denote. -/
theorem eq_of_magnitude_eq (h : d.Normal) (h' : d'.Normal) (hsign : d.negative = d'.negative)
    (hmagnitude : d.magnitude = d'.magnitude) : d = d' := by
  have hpower : d.exponent + 1 - (d.digits.length : Int)
      = d'.exponent + 1 - d'.digits.length :=
    Int.le_antisymm (h'.le_of_magnitude_eq hmagnitude.symm) (h.le_of_magnitude_eq hmagnitude)
  have hten : (10 : ℚ) ^ (d'.exponent + 1 - d'.digits.length) ≠ 0 := by positivity
  have hnumber : ofDigits d.digits = ofDigits d'.digits := by
    unfold Decimal.magnitude at hmagnitude
    rw [hpower] at hmagnitude
    exact_mod_cast mul_right_cancel₀ hten hmagnitude
  have hdigits : d.digits = d'.digits := by
    rw [← h.digitsOf_ofDigits, hnumber, h'.digitsOf_ofDigits]
  have hexponent : d.exponent = d'.exponent := by
    rw [hdigits] at hpower
    omega
  cases d
  cases d'
  simp_all

/-- **A normal decimal is determined by the number that it denotes.** -/
theorem eq_of_value_eq (h : d.Normal) (h' : d'.Normal) (hvalue : d.value = d'.value) : d = d' := by
  have hpos := h.magnitude_pos
  have hpos' := h'.magnitude_pos
  unfold Decimal.value at hvalue
  split at hvalue <;> split at hvalue
  · exact h.eq_of_magnitude_eq h' (by simp_all) (neg_inj.1 hvalue)
  · linarith
  · linarith
  · exact h.eq_of_magnitude_eq h' (by simp_all) hvalue

end Normal

end Decimal

/-- What is left when zeros are stripped does not end with one, unless it is all that there is. -/
theorem getLast?_stripZeros {first : Digit} (hfirst : first ≠ 0) (others : List Digit) :
    (Shortest.stripZeros (first :: others)).getLast? ≠ some 0 := by
  show (first :: (others.reverse.dropWhile (· = 0)).reverse).getLast? ≠ some 0
  cases hkept : others.reverse.dropWhile (· = 0) with
  | nil => simpa using hfirst
  | cons last front =>
      have hlast : last ≠ 0 := by
        have := List.head?_dropWhile_not (· = (0 : Digit)) others.reverse
        rw [hkept] at this
        simpa using this
      rw [List.reverse_cons, ← List.cons_append, List.getLast?_append_cons,
        List.getLast?_singleton]
      simpa using hlast

/-- The digits that are found for a double other than zero are normal. -/
theorem shortest_normal (tie : Tie) (negative : Bool) {mantissa : Nat} {exponent : Int}
    (hm : 0 < mantissa) (h : Double.Legal mantissa exponent) :
    (Decimal.shortest tie negative mantissa exponent).Normal := by
  obtain ⟨c, power, _, hround, hshortest⟩ := Shortest.exists_shortest_eq tie negative hm h
  obtain ⟨first, others, hfirst, hdigits⟩ := exists_digitsOf_eq_cons (hround.coefficient_pos hm)
  rw [hshortest, hdigits]
  refine ⟨List.cons_ne_nil _ _, ?_, getLast?_stripZeros hfirst others⟩
  simpa [Shortest.stripZeros] using hfirst

namespace JavaScript

/-! ## Decimal literals -/

/-- The parts of a decimal literal, with a sign in front. A point may stand without digits on one
of its sides. -/
structure Literal where
  negative : Bool
  whole : List Digit
  /-- The digits behind the point, if there is a point. -/
  fraction : Option (List Digit)
  /-- The exponent, if one is written. -/
  exponent : Option Int
  deriving DecidableEq, Repr

namespace Literal

/-- The number that a literal stands for, without its sign. -/
def magnitude (l : Literal) : ℚ :=
  (ofDigits l.whole + ofDigits (l.fraction.getD []) / 10 ^ (l.fraction.getD []).length)
    * 10 ^ l.exponent.getD 0

/-- The number that a literal stands for. -/
def value (l : Literal) : ℚ :=
  if l.negative then -l.magnitude else l.magnitude

/-- A literal has a digit before its exponent, and a zero in front of other digits would make it an
octal one. -/
def Allowed (l : Literal) : Prop :=
  l.whole ++ l.fraction.getD [] ≠ [] ∧ (l.whole.head? = some 0 → l.whole = [0])
  deriving Decidable

/-- There is a digit before the point and one behind it, no zero in front that could be left out,
and none at the end of the fraction. -/
structure Tidy (l : Literal) : Prop where
  whole_ne_nil : l.whole ≠ []
  leading : l.whole.head? = some 0 → l.whole = [0]
  trailing : ∀ ds ∈ l.fraction, ds ≠ [] ∧ ds.getLast? ≠ some 0

/-- The point and the digits behind it, and the rest. -/
def readFraction : List Char → Option (List Digit) × List Char
  | '.' :: cs => let (ds, rest) := Json.takeDigits cs; (some ds, rest)
  | cs => (none, cs)

/-- The exponent at the end of a text, which may have no exponent but nothing else either. -/
def readExponent? : List Char → Option (Option Int)
  | [] => some none
  | c :: cs =>
    if c = 'e' ∨ c = 'E' then
      let (negative, cs) := Json.takeSign cs
      match Json.readDigits? cs with
      | some (ds, []) => some (some (if negative then -(ofDigits ds : Int) else ofDigits ds))
      | _ => none
    else none

def readUnsigned? (negative : Bool) (cs : List Char) : Option Literal := do
  let (whole, cs) := Json.takeDigits cs
  let (fraction, cs) := readFraction cs
  let exponent ← readExponent? cs
  let l : Literal := ⟨negative, whole, fraction, exponent⟩
  if l.Allowed then some l else none

/-- Reads a text that is one decimal literal. -/
def read? (s : String) : Option Literal :=
  match s.toList with
  | '-' :: cs => readUnsigned? true cs
  | cs => readUnsigned? false cs

/-! ### Writing and reading -/

def fractionText : Option (List Digit) → String
  | none => ""
  | some ds => "." ++ digitText ds

/-- The exponent with its letter and its sign. -/
def exponentText : Option Int → String
  | none => ""
  | some x => "e" ++ (if x < 0 then "-" else "+") ++ natText x.natAbs

def text (l : Literal) : String :=
  (if l.negative then "-" else "") ++ digitText l.whole ++ fractionText l.fraction
    ++ exponentText l.exponent

theorem toList_fractionText_some (ds : List Digit) :
    (fractionText (some ds)).toList = '.' :: ds.map Digit.toChar := by
  simp [fractionText, digitText]

theorem toList_exponentText_some (x : Int) :
    (exponentText (some x)).toList
      = 'e' :: (if x < 0 then '-' else '+') :: (digitsOf x.natAbs).map Digit.toChar := by
  show ("e" ++ (if x < 0 then "-" else "+") ++ natText x.natAbs).toList = _
  split <;> simp [Json.toList_natText]

theorem startsWithoutDigit_exponentText (x : Option Int) :
    Json.StartsWithoutDigit (exponentText x).toList
      ∧ ∀ c ∈ (exponentText x).toList.head?, c ≠ '.' := by
  cases x with
  | none => exact ⟨nofun, nofun⟩
  | some x =>
      rw [toList_exponentText_some]
      refine ⟨Json.startsWithoutDigit_cons (by decide) _, ?_⟩
      rintro _ ⟨⟩
      decide

theorem readExponent?_exponentText (x : Option Int) :
    readExponent? (exponentText x).toList = some x := by
  cases x with
  | none => rfl
  | some x =>
      have hdigits := Json.readDigits?_append (digitsOf_ne_nil x.natAbs)
        Json.ends_nil.startsWithoutDigit
      rw [List.append_nil] at hdigits
      rw [toList_exponentText_some]
      split
      · simp [-Nat.cast_natAbs, readExponent?, Json.takeSign, Json.afterWord?, hdigits,
          ofDigits_digitsOf]
        omega
      · simp [-Nat.cast_natAbs, readExponent?, Json.takeSign, Json.afterWord?, hdigits,
          ofDigits_digitsOf]
        omega

theorem readFraction_append (fraction : Option (List Digit)) {rest : List Char}
    (h : Json.StartsWithoutDigit rest) (hpoint : ∀ c ∈ rest.head?, c ≠ '.') :
    readFraction ((fractionText fraction).toList ++ rest) = (fraction, rest) := by
  cases fraction with
  | none =>
      cases rest with
      | nil => rfl
      | cons c cs =>
          have hc : c ≠ '.' := hpoint c rfl
          show readFraction (c :: cs) = _
          unfold readFraction
          split
          · rename_i heq
            exact absurd (List.cons.inj heq).1 hc
          · rfl
  | some ds =>
      rw [toList_fractionText_some, List.cons_append, readFraction, Json.takeDigits_append ds h]

/-- The text of a literal without its sign is read as that literal. -/
theorem readUnsigned?_text {l : Literal} (h : l.Allowed) :
    readUnsigned? l.negative (l.whole.map Digit.toChar ++ ((fractionText l.fraction).toList
      ++ (exponentText l.exponent).toList)) = some l := by
  obtain ⟨hdigit, hpoint⟩ := startsWithoutDigit_exponentText l.exponent
  have hfraction : Json.StartsWithoutDigit ((fractionText l.fraction).toList
      ++ (exponentText l.exponent).toList) := by
    cases l.fraction with
    | none => exact hdigit
    | some ds =>
        rw [toList_fractionText_some]
        exact Json.startsWithoutDigit_cons (by decide) _
  unfold readUnsigned?
  simp only [Json.takeDigits_append l.whole hfraction, readFraction_append l.fraction hdigit hpoint,
    readExponent?_exponentText, Option.bind_eq_bind, Option.bind_some, if_pos h]

/-- Without its sign, a literal starts with a digit or with a point. -/
theorem ne_minus_cons_of_allowed {l : Literal} (h : l.Allowed) (rest cs : List Char) :
    l.whole.map Digit.toChar ++ ((fractionText l.fraction).toList ++ rest) ≠ '-' :: cs := by
  intro heq
  cases hwhole : l.whole with
  | nil =>
      cases hfraction : l.fraction with
      | none => exact h.1 (by rw [hwhole, hfraction]; rfl)
      | some ds =>
          rw [hwhole, hfraction, toList_fractionText_some] at heq
          exact absurd (List.cons.inj heq).1 (by decide)
  | cons d ds =>
      rw [hwhole] at heq
      have hminus : Digit.ofChar? '-' = none := by decide
      have hd := Digit.ofChar?_toChar d
      rw [(List.cons.inj heq).1, hminus] at hd
      cases hd

/-- **The text of a literal is read as that literal.** -/
theorem read?_text {l : Literal} (h : l.Allowed) : read? l.text = some l := by
  have hread := readUnsigned?_text h
  have htext : l.text.toList = (if l.negative then ['-'] else []) ++ (l.whole.map Digit.toChar
      ++ ((fractionText l.fraction).toList ++ (exponentText l.exponent).toList)) := by
    unfold text digitText
    cases l.negative <;> simp
  unfold read?
  rw [htext]
  cases hneg : l.negative with
  | true =>
      rw [hneg] at hread
      exact hread
  | false =>
      rw [hneg] at hread
      split
      · rename_i cs heq
        exact absurd heq (ne_minus_cons_of_allowed h _ cs)
      · exact hread

/-- Digits times a power of ten, with the point moved by as much, stand for the same number. -/
theorem value_of_shift {l : Literal} {d : Decimal} {j : Nat} (hsign : l.negative = d.negative)
    (hdigits : ofDigits (l.whole ++ l.fraction.getD []) = ofDigits d.digits * 10 ^ j)
    (hpoint : l.exponent.getD 0 - (l.fraction.getD []).length + j
      = d.exponent + 1 - d.digits.length) : l.value = d.value := by
  have hmagnitude : l.magnitude = d.magnitude := by
    unfold magnitude Decimal.magnitude
    generalize l.fraction.getD [] = fraction at *
    have hwhole : (ofDigits l.whole : ℚ) * 10 ^ fraction.length + ofDigits fraction
        = ofDigits d.digits * 10 ^ j := by
      rw [ofDigits_append] at hdigits
      exact_mod_cast hdigits
    calc ((ofDigits l.whole : ℚ) + ofDigits fraction / 10 ^ fraction.length)
          * 10 ^ l.exponent.getD 0
        = (ofDigits l.whole * 10 ^ fraction.length + ofDigits fraction)
          * (10 ^ l.exponent.getD 0 / 10 ^ fraction.length) := by field_simp
      _ = ofDigits d.digits * (10 ^ (j : Int) * 10 ^ (l.exponent.getD 0 - fraction.length)) := by
          rw [hwhole, zpow_sub₀ (by norm_num), zpow_natCast, zpow_natCast, mul_assoc]
      _ = ofDigits d.digits * 10 ^ (d.exponent + 1 - d.digits.length) := by
          rw [← hpoint, ← zpow_add₀ (by norm_num), add_comm]
  unfold value Decimal.value
  rw [hsign, hmagnitude]

end Literal

/-! ## The four layouts -/

/-- How the digits of a decimal are laid out as a literal. -/
inductive LaidOut (d : Decimal) : Literal → Prop
  /-- The point comes behind the digits, and zeros fill the places up to it. -/
  | whole (zeros : Nat) (hzeros : (d.digits.length : Int) + zeros = d.point)
      (hnear : d.point ≤ 21) :
      LaidOut d ⟨d.negative, d.digits ++ List.replicate zeros 0, none, none⟩
  /-- The point stands among the digits and cuts them in two. -/
  | pointed (front back : List Digit) (hcut : d.digits = front ++ back)
      (hfront : (front.length : Int) = d.point) (hne : front ≠ []) (hback : back ≠ [])
      (hnear : d.point ≤ 21) :
      LaidOut d ⟨d.negative, front, some back, none⟩
  /-- The point comes before the digits, with zeros between them. -/
  | small (zeros : Nat) (hzeros : d.point + zeros = 0) (hnear : zeros < 6) :
      LaidOut d ⟨d.negative, [0], some (List.replicate zeros 0 ++ d.digits), none⟩
  /-- The point is too far away: it stands behind the first digit, and an exponent moves it. -/
  | scientific (first : Digit) (rest : List Digit) (hcut : d.digits = first :: rest)
      (hfar : d.exponent ≤ -7 ∨ 21 ≤ d.exponent) :
      LaidOut d ⟨d.negative, [first], if rest = [] then none else some rest, some d.exponent⟩

theorem pointed_eq (front back : List Digit) :
    Decimal.pointed front back
      = digitText front ++ Literal.fractionText (if back = [] then none else some back) := by
  cases back with
  | nil => simp [Decimal.pointed, Literal.fractionText]
  | cons d ds => simp [Decimal.pointed, Literal.fractionText, String.append_assoc]

/-- Without an exponent, the text is that of the literal with the digits on the two sides of the
point. -/
theorem decimalText_eq_plain {d : Decimal} (h : -6 < d.point ∧ d.point ≤ 21) :
    decimalText d = Literal.text
      ⟨d.negative, d.whole, if d.fraction = [] then none else some d.fraction, none⟩ := by
  unfold decimalText Decimal.plain Literal.text
  rw [if_pos h, pointed_eq]
  simp [Decimal.signText, Literal.exponentText, String.append_assoc]

/-- **The text of a decimal is one of its four layouts.** -/
theorem exists_laidOut {d : Decimal} (hdigits : d.digits ≠ []) :
    ∃ l, LaidOut d l ∧ decimalText d = l.text := by
  by_cases hplain : -6 < d.point ∧ d.point ≤ 21
  · rw [decimalText_eq_plain hplain]
    by_cases hpoint : d.point ≤ 0
    · -- the point comes before the digits
      have hwhole : d.whole = [0] := if_pos hpoint
      have hfraction : d.fraction = List.replicate (-d.point).toNat 0 ++ d.digits := if_pos hpoint
      refine ⟨_, .small (-d.point).toNat (by omega) (by omega), ?_⟩
      rw [hwhole, hfraction, if_neg (by simp [hdigits])]
    · have hwhole : d.whole = d.digits.take d.point.toNat
          ++ List.replicate (d.point.toNat - d.digits.length) 0 := if_neg hpoint
      have hfraction : d.fraction = d.digits.drop d.point.toNat := if_neg hpoint
      by_cases hlong : d.digits.length ≤ d.point.toNat
      · -- the point comes behind the digits: all of them are taken, and none is left
        refine ⟨_, .whole (d.point.toNat - d.digits.length) (by omega) hplain.2, ?_⟩
        rw [hwhole, hfraction, List.take_of_length_le hlong, List.drop_eq_nil_of_le hlong,
          if_pos rfl]
      · -- the point stands among the digits, so there are some on each side and no zeros to add
        have hback : d.digits.drop d.point.toNat ≠ [] := by
          rw [Ne, List.drop_eq_nil_iff]
          exact hlong
        have hfront : (d.digits.take d.point.toNat).length = d.point.toNat := by
          rw [List.length_take]
          omega
        refine ⟨_, .pointed _ _ (List.take_append_drop d.point.toNat d.digits).symm (by omega)
          (List.ne_nil_of_length_pos (by omega)) hback hplain.2, ?_⟩
        have hzeros : d.point.toNat - d.digits.length = 0 := by omega
        rw [hwhole, hfraction, if_neg hback, hzeros, List.replicate_zero, List.append_nil]
  · cases hcut : d.digits with
    | nil => exact absurd hcut hdigits
    | cons first rest =>
        refine ⟨_, .scientific first rest hcut ?_, ?_⟩
        · simp only [Decimal.point] at hplain
          omega
        · unfold decimalText Decimal.scientific
          rw [if_neg hplain, pointed_eq, hcut]
          simp [Literal.text, Literal.exponentText, Decimal.signText, String.append_assoc]

namespace LaidOut

variable {d : Decimal} {l : Literal}

/-- **Every layout of a decimal stands for the number that the decimal denotes.** -/
theorem value_eq (h : LaidOut d l) : l.value = d.value := by
  cases h with
  | whole zeros hzeros hnear =>
      apply Literal.value_of_shift (j := zeros) rfl
      · simp [ofDigits_append, ofDigits_replicate_zero]
      · simp only [Decimal.point] at hzeros
        simp
        omega
  | pointed front back hcut hfront hne hback hnear =>
      apply Literal.value_of_shift (j := 0) rfl
      · simp [hcut]
      · simp only [Decimal.point] at hfront
        simp [hcut]
        omega
  | small zeros hzeros hnear =>
      apply Literal.value_of_shift (j := 0) rfl
      · simp [ofDigits_cons, ofDigits_append, ofDigits_replicate_zero]
      · simp only [Decimal.point] at hzeros
        simp
        omega
  | scientific first rest hcut hfar =>
      have hrest : (if rest = [] then none else some rest).getD [] = rest := by
        split <;> simp_all
      apply Literal.value_of_shift (j := 0) rfl
      · simp only [hrest, hcut]
        simp
      · simp only [hrest, hcut]
        simp

/-- An exponent is written exactly for the numbers below a millionth and those from `10 ^ 21`
on. -/
theorem exponent_ne_none_iff (h : LaidOut d l) :
    l.exponent ≠ none ↔ d.exponent ≤ -7 ∨ 21 ≤ d.exponent := by
  cases h with
  | whole zeros hzeros hnear =>
      simp only [Decimal.point] at *
      simp
      omega
  | pointed front back hcut hfront hne hback hnear =>
      simp only [Decimal.point] at *
      simp
      omega
  | small zeros hzeros hnear =>
      simp only [Decimal.point] at *
      simp
      omega
  | scientific first rest hcut hfar => simp [hfar]

/-- No layout of a normal decimal has a superfluous zero. -/
theorem tidy (h : LaidOut d l) (hd : d.Normal) : l.Tidy := by
  cases h with
  | whole zeros hzeros hnear =>
      refine ⟨List.append_ne_nil_of_left_ne_nil hd.nonempty _, ?_, nofun⟩
      rw [List.head?_append_of_ne_nil _ hd.nonempty]
      exact fun hzero => absurd hzero hd.first
  | pointed front back hcut hfront hne hback hnear =>
      refine ⟨hne, ?_, ?_⟩
      · intro hzero
        apply absurd _ hd.first
        rw [hcut, List.head?_append_of_ne_nil _ hne, hzero]
      · rintro _ ⟨⟩
        refine ⟨hback, ?_⟩
        have hlast := hd.last
        rwa [hcut, List.getLast?_append_of_ne_nil _ hback] at hlast
  | small zeros hzeros hnear =>
      refine ⟨List.cons_ne_nil _ _, fun _ => rfl, ?_⟩
      rintro _ ⟨⟩
      refine ⟨List.append_ne_nil_of_right_ne_nil _ hd.nonempty, ?_⟩
      rw [List.getLast?_append_of_ne_nil _ hd.nonempty]
      exact hd.last
  | scientific first rest hcut hfar =>
      have hfirst := hd.first
      have hlast := hd.last
      rw [hcut] at hfirst hlast
      refine ⟨List.cons_ne_nil _ _, fun hzero => absurd hzero hfirst, ?_⟩
      intro ds hds
      -- a fraction is written only where digits are left, and it is all of them
      have hrest : rest ≠ [] ∧ rest = ds := by
        by_cases hnil : rest = [] <;> simp_all
      obtain ⟨hne, rfl⟩ := hrest
      refine ⟨hne, ?_⟩
      rwa [← List.singleton_append, List.getLast?_append_of_ne_nil _ hne] at hlast

end LaidOut

theorem Literal.Tidy.allowed {l : Literal} (h : l.Tidy) : l.Allowed :=
  ⟨List.append_ne_nil_of_left_ne_nil h.whole_ne_nil _, h.leading⟩

/-- **The text of a normal decimal**, read as a literal, stands for the number that the decimal
denotes. -/
theorem exists_read?_decimalText {d : Decimal} (hd : d.Normal) :
    ∃ l, Literal.read? (decimalText d) = some l ∧ LaidOut d l := by
  obtain ⟨l, hlaid, htext⟩ := exists_laidOut hd.nonempty
  refine ⟨l, ?_, hlaid⟩
  rw [htext]
  exact Literal.read?_text (hlaid.tidy hd).allowed

/-- **Different normal decimals have different texts.** -/
theorem decimalText_injective {d d' : Decimal} (hd : d.Normal) (hd' : d'.Normal)
    (h : decimalText d = decimalText d') : d = d' := by
  obtain ⟨l, hl, hlaid⟩ := exists_read?_decimalText hd
  obtain ⟨l', hl', hlaid'⟩ := exists_read?_decimalText hd'
  have hsame : l = l' := by
    rw [h, hl'] at hl
    exact (Option.some.inj hl).symm
  apply hd.eq_of_value_eq hd'
  rw [← hlaid.value_eq, ← hlaid'.value_eq, hsame]

/-- **A number text denotes exactly the decimal that was laid out.** For normal digits, any exponent
and either sign, the text is a decimal literal that stands for the same rational number. Its layout
is one of four, in none of which a count of zeros is negative or a cut falls outside the digits; it
has an exponent exactly from `10 ^ 21` on and up to `10 ^ -7`, and no superfluous zero on either
side. So different decimals have different texts, and so have finite doubles other than zero whose
digits, exponent or sign differ. -/
theorem number_text_denotes_decimal :
    (∀ d : Decimal, d.Normal → ∃ l, Literal.read? (decimalText d) = some l ∧ LaidOut d l
      ∧ l.value = d.value ∧ (l.exponent ≠ none ↔ d.exponent ≤ -7 ∨ 21 ≤ d.exponent) ∧ l.Tidy)
    ∧ (∀ d d' : Decimal, d.Normal → d'.Normal → d ≠ d' → decimalText d ≠ decimalText d')
    ∧ ∀ (x x' : Float) (negative negative' : Bool) (mantissa mantissa' : Nat)
        (exponent exponent' : Int),
      Double.ofFloat x = .finite negative mantissa exponent → 0 < mantissa →
      Double.ofFloat x' = .finite negative' mantissa' exponent' → 0 < mantissa' →
      let d := Decimal.shortest .up negative mantissa exponent
      let d' := Decimal.shortest .up negative' mantissa' exponent'
      d.Normal ∧ numberText x = decimalText d ∧ (d ≠ d' → numberText x ≠ numberText x') := by
  refine ⟨?_, ?_, ?_⟩
  · intro d hd
    obtain ⟨l, hread, hlaid⟩ := exists_read?_decimalText hd
    exact ⟨l, hread, hlaid, hlaid.value_eq, hlaid.exponent_ne_none_iff, hlaid.tidy hd⟩
  · intro d d' hd hd' hne htext
    exact hne (decimalText_injective hd hd' htext)
  · intro x x' negative negative' mantissa mantissa' exponent exponent' hx hm hx' hm' d d'
    have hd : d.Normal := shortest_normal .up negative hm (Double.finite_of_ofFloat hx).1
    have hd' : d'.Normal := shortest_normal .up negative' hm' (Double.finite_of_ofFloat hx').1
    refine ⟨hd, numberText_eq hx hm, fun hne htext => hne (decimalText_injective hd hd' ?_)⟩
    rw [← numberText_eq hx hm, ← numberText_eq hx' hm', htext]

/-- The smallest exponent that is written, with a fraction and a sign, and two doubles that differ
in their sign only. -/
theorem number_text_denotes_decimal_millionths :
    (∃ l, Literal.read? (decimalText ⟨true, [1, 2, 5], -7⟩) = some l
      ∧ l.value = (⟨true, [1, 2, 5], -7⟩ : Decimal).value ∧ l.exponent ≠ none)
    ∧ numberText 1.5 ≠ numberText (-1.5) := by
  obtain ⟨hdecimal, _, hdouble⟩ := number_text_denotes_decimal
  constructor
  · obtain ⟨l, hread, _, hvalue, hexponent, _⟩ :=
      hdecimal ⟨true, [1, 2, 5], -7⟩ ⟨by decide, by decide, by decide⟩
    exact ⟨l, hread, hvalue, hexponent.2 (by decide)⟩
  · refine (hdouble 1.5 (-1.5) false true 6755399441055744 6755399441055744 (-52) (-52)
      (by decide) (by decide) (by decide) (by decide)).2.2 ?_
    intro hsame
    have hsign := congrArg Decimal.negative hsame
    rw [Numeral.shortest_negative, Numeral.shortest_negative] at hsign
    cases hsign

end JavaScript

end L32
