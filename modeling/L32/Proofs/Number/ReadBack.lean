import L32.Proofs.Number.Digits
import L32.Proofs.Number.Rounding

set_option autoImplicit false

/-! # The shortest decimal reads back

`Decimal.shortest` looks for a decimal with few digits in the interval of a double. The search is on
grids of decimals, from coarse to fine, and on each of them only the two neighbours of the value are
tried. That it succeeds is the point: on the grid of seventeen digits the distance of two neighbours
is less than the width of the interval, so one of them lies in it (`exists_nearest?_of_step_lt`).
That needs the weight of the first digit, which is found from the binary logarithm by a
multiplication; the two powers are compared through good fractions for their ratio
(`zpow_le_zpow_of_ratio`).

A decimal of the interval rounds to the double, hence the main statement
`Numeral.exists_ofFloat?_of_isFinite`: the numeral of every finite double is read as that double. -/

namespace L32

/-! ## The weight of the first digit -/

/-- One power is below another when their exponents are below a ratio that the bases admit. -/
theorem zpow_le_zpow_of_ratio {b c : ℚ} (hb : 1 < b) (hc : 1 < c) {p q : Nat} (hq : q ≠ 0)
    (hpow : b ^ p ≤ c ^ q) {g n : Int} (hn : 0 ≤ n) (hg : q * g ≤ p * n) : b ^ g ≤ c ^ n := by
  have hb0 : (0 : ℚ) < b := by linarith
  have hc0 : (0 : ℚ) < c := by linarith
  have hraised : (b ^ g) ^ q ≤ (c ^ n) ^ q := by
    calc (b ^ g) ^ q = b ^ (q * g) := by rw [← zpow_natCast, ← zpow_mul, mul_comm]
      _ ≤ b ^ (p * n) := zpow_le_zpow_right₀ hb.le hg
      _ = (b ^ p) ^ n := by rw [zpow_mul, zpow_natCast]
      _ ≤ (c ^ q) ^ n := zpow_le_zpow_left₀ hn (by positivity) hpow
      _ = (c ^ n) ^ q := by rw [← zpow_natCast, ← zpow_natCast, ← zpow_mul, ← zpow_mul, mul_comm]
  exact (pow_le_pow_iff_left₀ (by positivity) (by positivity) hq).1 hraised

theorem ten_zpow_le_two_zpow {g n : Int} (hn : 0 ≤ n) (hg : 2136 * g ≤ 643 * n) :
    (10 : ℚ) ^ g ≤ 2 ^ n := by
  have hnat : 10 ^ 643 ≤ 2 ^ 2136 := by decide +kernel
  have hpow : (10 : ℚ) ^ 643 ≤ 2 ^ 2136 := by exact_mod_cast hnat
  exact zpow_le_zpow_of_ratio (by norm_num) (by norm_num) (by decide) hpow hn hg

theorem two_zpow_le_ten_zpow {g n : Int} (hg : 0 ≤ g) (hn : 146 * n ≤ 485 * g) :
    (2 : ℚ) ^ n ≤ 10 ^ g := by
  have hnat : 2 ^ 485 ≤ 10 ^ 146 := by decide +kernel
  have hpow : (2 : ℚ) ^ 485 ≤ 10 ^ 146 := by exact_mod_cast hnat
  exact zpow_le_zpow_of_ratio (by norm_num) (by norm_num) (by decide) hpow hg hn

theorem zpow_le_zpow_neg_iff {b c : ℚ} (hb : 0 < b) (hc : 0 < c) (g n : Int) :
    b ^ g ≤ c ^ n ↔ c ^ (-n) ≤ b ^ (-g) := by
  rw [zpow_neg, zpow_neg]
  exact (inv_le_inv₀ (by positivity) (by positivity)).symm

/-- The multiplication finds the decimal weight of a power of two up to one, among all the powers of
two that doubles reach. -/
theorem two_zpow_bracket {n : Int} (hlow : -1074 ≤ n) (hhigh : n ≤ 1023) :
    (10 : ℚ) ^ (n * 30103 / 100000) ≤ 2 ^ n
      ∧ (2 : ℚ) ^ (n + 1) ≤ 10 ^ (n * 30103 / 100000 + 2) := by
  constructor
  · by_cases hn : 0 ≤ n
    · exact ten_zpow_le_two_zpow hn (by omega)
    · rw [zpow_le_zpow_neg_iff (by norm_num) (by norm_num)]
      exact two_zpow_le_ten_zpow (by omega) (by omega)
  · by_cases hg : 0 ≤ n * 30103 / 100000 + 2
    · exact two_zpow_le_ten_zpow hg (by omega)
    · rw [zpow_le_zpow_neg_iff (by norm_num) (by norm_num)]
      exact ten_zpow_le_two_zpow (by omega) (by omega)

namespace Shortest

open Double (Legal RoundsTo reach reach_le_two reach_pos)

variable {mantissa : Nat} {exponent : Int}

theorem log2_le_of_legal (h : Legal mantissa exponent) : mantissa.log2 ≤ 52 := by
  have hlt : mantissa < 2 ^ 53 := h.mantissa_lt
  by_cases hm : mantissa = 0
  · simp [hm]
  · have := (Nat.log2_lt hm).2 hlt
    omega

/-- **The weight of the first digit** of a finite double. -/
theorem leadingExponent_bounds (hm : 0 < mantissa) (h : Legal mantissa exponent) :
    (10 : ℚ) ^ leadingExponent mantissa exponent ≤ mantissa * 2 ^ exponent
      ∧ (mantissa : ℚ) * 2 ^ exponent < 10 ^ (leadingExponent mantissa exponent + 1) := by
  -- between two powers of two
  have hlow : (2 : ℚ) ^ (mantissa.log2 + exponent) ≤ mantissa * 2 ^ exponent := by
    rw [zpow_add₀ (by norm_num), zpow_natCast]
    gcongr
    exact_mod_cast Nat.log2_self_le hm.ne'
  have hhigh : (mantissa : ℚ) * 2 ^ exponent < 2 ^ (mantissa.log2 + exponent + 1) := by
    rw [add_right_comm, zpow_add₀ (by norm_num), ← Nat.cast_succ, zpow_natCast]
    gcongr
    exact_mod_cast Nat.lt_log2_self
  have hlog := log2_le_of_legal h
  have hleast := h.least_le
  have htop := h.exponent_lt
  simp only [Double.leastExponent] at hleast htop
  obtain ⟨hten, htwo⟩ := two_zpow_bracket (n := mantissa.log2 + exponent) (by omega) (by omega)
  -- the comparison decides between the two candidates
  have htest : ∀ next : Int, mantissa * powNum 2 exponent * powDen 10 next
      < powNum 10 next * powDen 2 exponent ↔ (mantissa : ℚ) * 2 ^ exponent < 10 ^ next := by
    intro next
    have hden := powDen_pos (by decide : 0 < 2) exponent
    have hcross := @mul_powDen_lt_iff 10 (by decide) (mantissa * powNum 2 exponent) _ hden next
    rw [mul_powNum_div_powDen (by decide), Nat.cast_ofNat, Nat.cast_ofNat] at hcross
    rwa [mul_comm (powNum 10 next)]
  unfold leadingExponent
  simp only [htest]
  split
  · rename_i hless
    exact ⟨hten.trans hlow, hless⟩
  · rename_i hless
    refine ⟨not_lt.1 hless, hhigh.trans_le (htwo.trans_eq ?_)⟩
    rw [add_assoc _ 1 1]
    norm_num

/-! ## Grid points that read back -/

section Window

variable (mantissa exponent) in
/-- The common factor of the numbers of a window. -/
theorem window_scale (grid : Int) :
    ∃ scale : ℚ, 0 < scale
      ∧ ((window mantissa exponent grid).value : ℚ) = mantissa * 2 ^ exponent * scale
      ∧ ((window mantissa exponent grid).high : ℚ)
          = (4 * mantissa + 2) * 2 ^ (exponent - 2) * scale
      ∧ (0 < mantissa → ((window mantissa exponent grid).low : ℚ)
          = (4 * mantissa - reach mantissa exponent) * 2 ^ (exponent - 2) * scale)
      ∧ ((window mantissa exponent grid).step : ℚ) = 10 ^ grid * scale := by
  have hnum : (powNum 2 (exponent - 2) : ℚ) = 2 ^ (exponent - 2) * powDen 2 (exponent - 2) :=
    powNum_eq (by decide) _
  have hten : (powNum 10 grid : ℚ) = 10 ^ grid * powDen 10 grid := powNum_eq (by decide) _
  have hpos2 : (0 : ℚ) < powDen 2 (exponent - 2) := by
    exact_mod_cast powDen_pos (by decide : 0 < 2) _
  have hpos10 : (0 : ℚ) < powDen 10 grid := by
    exact_mod_cast powDen_pos (by decide : 0 < 10) _
  refine ⟨powDen 2 (exponent - 2) * powDen 10 grid, by positivity, ?_, ?_, fun hm => ?_, ?_⟩
  · simp only [window, Nat.cast_mul, hnum, two_zpow_eq_quarters exponent, Nat.cast_ofNat]
    ring
  · simp only [window, Nat.cast_mul, Nat.cast_add, hnum, Nat.cast_ofNat]
    ring
  · have hle : reach mantissa exponent ≤ 4 * mantissa := by
      have := reach_le_two mantissa exponent
      omega
    show (((4 * mantissa - reach mantissa exponent) * (powNum 2 (exponent - 2) * powDen 10 grid)
      : Nat) : ℚ) = _
    rw [Nat.cast_mul, Nat.cast_sub hle, Nat.cast_mul, Nat.cast_mul, hnum, Nat.cast_ofNat]
    ring
  · simp only [window, Nat.cast_mul, hten]
    ring

/-- **A grid point reads back exactly when it rounds to the double.** -/
theorem contains_iff (hm : 0 < mantissa) (grid : Int) (c : Nat) :
    (window mantissa exponent grid).contains c = true
      ↔ RoundsTo mantissa exponent (c * 10 ^ grid) := by
  obtain ⟨scale, hscale, _, hhigh, hlow, hstep⟩ := window_scale mantissa exponent grid
  have hpoint : ((c * (window mantissa exponent grid).step : Nat) : ℚ) = c * 10 ^ grid * scale := by
    rw [Nat.cast_mul, hstep, mul_assoc]
  have hlow := hlow hm
  have hle₁ : (window mantissa exponent grid).low ≤ c * (window mantissa exponent grid).step
      ↔ (4 * mantissa - reach mantissa exponent : ℚ) * 2 ^ (exponent - 2) ≤ c * 10 ^ grid := by
    rw [← @Nat.cast_le ℚ, hlow, hpoint, mul_le_mul_iff_left₀ hscale]
  have hle₂ : c * (window mantissa exponent grid).step ≤ (window mantissa exponent grid).high
      ↔ (c * 10 ^ grid : ℚ) ≤ (4 * mantissa + 2) * 2 ^ (exponent - 2) := by
    rw [← @Nat.cast_le ℚ, hhigh, hpoint, mul_le_mul_iff_left₀ hscale]
  have hlt₁ : (window mantissa exponent grid).low < c * (window mantissa exponent grid).step
      ↔ (4 * mantissa - reach mantissa exponent : ℚ) * 2 ^ (exponent - 2) < c * 10 ^ grid := by
    rw [← @Nat.cast_lt ℚ, hlow, hpoint, mul_lt_mul_iff_left₀ hscale]
  have hlt₂ : c * (window mantissa exponent grid).step < (window mantissa exponent grid).high
      ↔ (c * 10 ^ grid : ℚ) < (4 * mantissa + 2) * 2 ^ (exponent - 2) := by
    rw [← @Nat.cast_lt ℚ, hhigh, hpoint, mul_lt_mul_iff_left₀ hscale]
  have hclosed : (window mantissa exponent grid).closed = decide (mantissa % 2 = 0) := rfl
  unfold Window.contains
  rw [hclosed]
  by_cases heven : mantissa % 2 = 0
  · simp only [heven, decide_true, if_true, Bool.and_eq_true, decide_eq_true_eq, hle₁, hle₂]
    constructor
    · rintro ⟨h₁, h₂⟩
      exact ⟨h₁, h₂, fun hodd => by omega⟩
    · intro h
      exact ⟨h.low, h.high⟩
  · simp only [heven, decide_false, Bool.false_eq_true, if_false, Bool.and_eq_true,
      decide_eq_true_eq, hlt₁, hlt₂]
    constructor
    · rintro ⟨h₁, h₂⟩
      exact ⟨h₁.le, h₂.le, fun _ => ⟨h₁, h₂⟩⟩
    · intro h
      exact h.odd (by omega)

end Window

/-! ## The search -/

/-- What is chosen reads back, and is one of the two neighbours of the value. -/
theorem contains_of_nearest? {w : Window} {tie : Tie} {c : Nat} (h : w.nearest? tie = some c) :
    w.contains c = true ∧ c ≤ w.value / w.step + 1 := by
  have hpick : (c = w.value / w.step ∧ w.contains (w.value / w.step) = true)
      ∨ (c = w.value / w.step + 1 ∧ w.contains (w.value / w.step + 1) = true) := by
    unfold Window.nearest? at h
    simp only at h
    split at h
    · cases h
    · exact Or.inl ⟨(Option.some.inj h).symm, by assumption⟩
    · exact Or.inr ⟨(Option.some.inj h).symm, by assumption⟩
    · -- both read back: whichever is chosen
      rename_i hdown hup
      split at h
      · exact Or.inl ⟨(Option.some.inj h).symm, hdown⟩
      · split at h
        · exact Or.inr ⟨(Option.some.inj h).symm, hup⟩
        · cases tie with
          | up => exact Or.inr ⟨(Option.some.inj h).symm, hup⟩
          | even =>
              simp only at h
              split at h
              · exact Or.inl ⟨(Option.some.inj h).symm, hdown⟩
              · exact Or.inr ⟨(Option.some.inj h).symm, hup⟩
  rcases hpick with ⟨rfl, hc⟩ | ⟨rfl, hc⟩
  · exact ⟨hc, Nat.le_succ _⟩
  · exact ⟨hc, le_refl _⟩

theorem exists_nearest? {w : Window} (tie : Tie)
    (h : w.contains (w.value / w.step) = true ∨ w.contains (w.value / w.step + 1) = true) :
    ∃ c, w.nearest? tie = some c := by
  cases hres : w.nearest? tie with
  | some c => exact ⟨c, rfl⟩
  | none =>
      exfalso
      unfold Window.nearest? at hres
      simp only at hres
      cases hdown : w.contains (w.value / w.step) <;>
        cases hup : w.contains (w.value / w.step + 1) <;>
        simp only [hdown, hup, reduceCtorEq, or_self, or_false, or_true] at h hres
      -- what is left is the choice between two that read back
      split at hres
      · cases hres
      · split at hres
        · cases hres
        · cases tie with
          | up => cases hres
          | even =>
              simp only at hres
              split at hres <;> cases hres

section Search

variable (mantissa exponent) in
/-- The value lies between two neighbours on the grid. -/
theorem grid_bracket (grid : Int) :
    (((window mantissa exponent grid).value / (window mantissa exponent grid).step : Nat) : ℚ)
        * 10 ^ grid ≤ mantissa * 2 ^ exponent
      ∧ (mantissa : ℚ) * 2 ^ exponent
        < (((window mantissa exponent grid).value / (window mantissa exponent grid).step + 1 : Nat)
            : ℚ) * 10 ^ grid := by
  obtain ⟨scale, hscale, hvalue, _, _, hstep⟩ := window_scale mantissa exponent grid
  have hsteppos : 0 < (window mantissa exponent grid).step := by
    have : (0 : ℚ) < ((window mantissa exponent grid).step : Nat) := by
      rw [hstep]
      positivity
    exact_mod_cast this
  generalize (window mantissa exponent grid).value = value at *
  generalize (window mantissa exponent grid).step = step at *
  constructor
  · have hnat : ((value / step * step : Nat) : ℚ) ≤ value := by
      exact_mod_cast Nat.div_mul_le_self value step
    rw [Nat.cast_mul, hstep, hvalue, ← mul_assoc] at hnat
    exact (mul_le_mul_iff_left₀ hscale).1 hnat
  · have hnat : (value : ℚ) < ((value / step + 1) * step : Nat) := by
      exact_mod_cast (Nat.div_lt_iff_lt_mul hsteppos).1 (Nat.lt_succ_self (value / step))
    rw [Nat.cast_mul, hstep, hvalue, ← mul_assoc] at hnat
    exact (mul_lt_mul_iff_left₀ hscale).1 hnat

/-- **On a grid finer than the interval of a double**, one of the two neighbours of the value reads
back. -/
theorem exists_nearest?_of_step_lt (hm : 0 < mantissa) (tie : Tie) {grid : Int}
    (hgrid : (10 : ℚ) ^ grid < (reach mantissa exponent + 2) * 2 ^ (exponent - 2)) :
    ∃ c, (window mantissa exponent grid).nearest? tie = some c := by
  obtain ⟨hbelow, habove⟩ := grid_bracket mantissa exponent grid
  have hunit : (0 : ℚ) < 2 ^ (exponent - 2) := by positivity
  have hreach : (0 : ℚ) < reach mantissa exponent * 2 ^ (exponent - 2) := by
    have : (0 : ℚ) < reach mantissa exponent := by exact_mod_cast reach_pos mantissa exponent
    positivity
  apply exists_nearest? tie
  rw [contains_iff hm, contains_iff hm]
  rw [two_zpow_eq_quarters exponent] at hbelow habove
  rw [Nat.cast_succ] at habove ⊢
  generalize ((_ / _ : Nat) : ℚ) = c at *
  -- if the lower one is too far below, the upper one is near enough
  by_cases hnear : 4 * mantissa * 2 ^ (exponent - 2) - c * 10 ^ grid <
      reach mantissa exponent * 2 ^ (exponent - 2)
  · left
    refine RoundsTo.of_lt ?_ ?_ <;> linarith
  · right
    refine RoundsTo.of_lt ?_ ?_ <;> linarith

/-- The grid of seventeen digits is finer than the interval of any double. -/
theorem ten_zpow_lt_interval (hm : 0 < mantissa) (h : Legal mantissa exponent) :
    (10 : ℚ) ^ (leadingExponent mantissa exponent - 16)
      < (reach mantissa exponent + 2) * 2 ^ (exponent - 2) := by
  have hlead := (leadingExponent_bounds hm h).1
  rw [two_zpow_eq_quarters exponent] at hlead
  have hunit : (0 : ℚ) < 2 ^ (exponent - 2) := by positivity
  have hmantissa : (mantissa : ℚ) < 2 * (Double.hidden : Nat) := by exact_mod_cast h.mantissa_lt
  have hwide : (4 * mantissa : ℚ) < (reach mantissa exponent + 2) * 10 ^ 16 := by
    rw [Double.cast_hidden] at hmantissa
    unfold reach
    split
    · rename_i hpower
      rw [hpower.1, Double.cast_hidden]
      norm_num
    · push_cast
      linarith
  have hsplit : (10 : ℚ) ^ leadingExponent mantissa exponent
      = 10 ^ (leadingExponent mantissa exponent - 16) * 10 ^ 16 := by
    rw [← zpow_natCast, ← zpow_add₀ (by norm_num)]
    congr 1
    push_cast
    ring
  rw [hsplit] at hlead
  have hscaled := mul_lt_mul_of_pos_right hwide hunit
  linarith

/-- **The search ends**, with a coefficient of at most seventeen digits. -/
theorem exists_shortest_eq (tie : Tie) (negative : Bool) (hm : 0 < mantissa)
    (h : Legal mantissa exponent) :
    ∃ (c : Nat) (power : Int), c ≤ 10 ^ 17 ∧ RoundsTo mantissa exponent (c * 10 ^ power)
      ∧ Decimal.shortest tie negative mantissa exponent
        = ⟨negative, stripZeros (digitsOf c), power + ((digitsOf c).length - 1 : Nat)⟩ := by
  have hne : mantissa ≠ 0 := hm.ne'
  generalize hx : leadingExponent mantissa exponent = x
  obtain ⟨last, hlast⟩ := exists_nearest?_of_step_lt hm tie (ten_zpow_lt_interval hm h)
  rw [hx] at hlast
  have hfound : ((List.range enoughDigits).findSome? fun (k : Nat) =>
      ((window mantissa exponent (x - k)).nearest? tie).map fun c => (k, c)).isSome := by
    rw [List.findSome?_isSome_iff]
    refine ⟨16, List.mem_range.2 (by decide), ?_⟩
    show (((window mantissa exponent (x - 16)).nearest? tie).map _).isSome = true
    rw [hlast]
    rfl
  obtain ⟨⟨k, c⟩, hkc⟩ := Option.isSome_iff_exists.1 hfound
  obtain ⟨k', hk', hnearest⟩ := List.exists_of_findSome?_eq_some hkc
  obtain ⟨c', hc', hpair⟩ := Option.map_eq_some_iff.1 hnearest
  obtain ⟨rfl, rfl⟩ := Prod.mk.inj hpair
  obtain ⟨hcontains, hle⟩ := contains_of_nearest? hc'
  refine ⟨c', x - k', ?_, (contains_iff hm _ _).1 hcontains, ?_⟩
  · -- the neighbour below the value has at most as many digits as the grid allows
    have hk : k' < 17 := List.mem_range.1 hk'
    have hlead := (leadingExponent_bounds hm h).2
    rw [hx] at hlead
    have hbelow := ((grid_bracket mantissa exponent (x - k')).1).trans_lt hlead
    have hsplit : (10 : ℚ) ^ (x + 1) = 10 ^ (k' + 1) * 10 ^ (x - k') := by
      rw [← zpow_natCast, ← zpow_add₀ (by norm_num)]
      congr 1
      push_cast
      ring
    rw [hsplit, mul_lt_mul_iff_left₀ (by positivity)] at hbelow
    have hdiv : (window mantissa exponent (x - k')).value / (window mantissa exponent (x - k')).step
        < 10 ^ (k' + 1) := by exact_mod_cast hbelow
    have hpow : 10 ^ (k' + 1) ≤ 10 ^ 17 := Nat.pow_le_pow_right (by decide) hk
    omega
  · unfold Decimal.shortest
    rw [if_neg hne]
    simp only [hx, hkc]

end Search

end Shortest

/-! ## Reading -/

/-- What rounds to a double other than zero is not zero. -/
theorem Double.RoundsTo.coefficient_pos {mantissa : Nat} {exponent : Int} (hm : 0 < mantissa)
    {c : Nat} {power : Int} (h : RoundsTo mantissa exponent (c * 10 ^ power)) : 0 < c := by
  have hlow := h.le_of_pos hm
  have hpos : (0 : ℚ) < 2 ^ (exponent - 1) := by positivity
  rcases Nat.eq_zero_or_pos c with rfl | hc
  · rw [Nat.cast_zero, zero_mul] at hlow
    linarith
  · exact hc

open Double (Legal RoundsTo) in
/-- **A decimal that rounds to a double other than zero is read as it**: such a decimal is not among
those that are out of range. -/
theorem Nearest.bits?_of_roundsTo {mantissa : Nat} {exponent : Int} (hm : 0 < mantissa)
    (hlegal : Legal mantissa exponent) {c : Nat} (hc : c ≤ 10 ^ 34) {power : Int}
    (h : RoundsTo mantissa exponent (c * 10 ^ power)) :
    bits? c power = some (Double.magnitude mantissa exponent) := by
  have hleast := hlegal.least_le
  have htop := hlegal.exponent_lt
  simp only [Double.leastExponent] at hleast htop
  have hlow := h.le_of_pos hm
  have hhigh := h.lt_of_legal hlegal
  have hcpos := h.coefficient_pos hm
  have hone : (1 : ℚ) ≤ c := by exact_mod_cast hcpos
  have hten : (0 : ℚ) < 10 ^ power := by positivity
  -- the power of ten is in range
  have hpowhigh : power < 309 := by
    have hlt : (10 : ℚ) ^ power < 10 ^ (309 : Int) := by
      calc (10 : ℚ) ^ power ≤ c * 10 ^ power := le_mul_of_one_le_left hten.le hone
        _ < 2 ^ (exponent + (53 : Nat)) := hhigh
        _ ≤ 10 ^ (309 : Int) := two_zpow_le_ten_zpow (by decide) (by omega)
    exact (zpow_lt_zpow_iff_right₀ (by norm_num)).1 hlt
  have hpowlow : -324 ≤ power + 34 := by
    have hle : (10 : ℚ) ^ (-324 : Int) ≤ 10 ^ (power + 34) := by
      calc (10 : ℚ) ^ (-324 : Int) ≤ 2 ^ (exponent - 1) := by
            rw [zpow_le_zpow_neg_iff (by norm_num) (by norm_num)]
            exact two_zpow_le_ten_zpow (by decide) (by omega)
        _ ≤ c * 10 ^ power := hlow
        _ ≤ 10 ^ 34 * 10 ^ power := by
            gcongr
            exact_mod_cast hc
        _ = 10 ^ (power + 34) := by
            rw [← zpow_natCast, ← zpow_add₀ (by norm_num), add_comm]
            rfl
    exact (zpow_le_zpow_iff_right₀ (by norm_num)).1 hle
  have hlog : c.log2 < 113 := (Nat.log2_lt hcpos.ne').2 (hc.trans_lt (by decide))
  have hfar : ¬ farExponent < (c.log2 : Int) * 30103 / 100000 + power := by
    simp only [farExponent]
    omega
  have hnear : ¬ (c.log2 : Int) * 30103 / 100000 + power < -farExponent := by
    simp only [farExponent]
    omega
  -- and the rounding finds the double
  have hden := powDen_pos (by decide : 0 < 10) power
  have hbits : magnitudeBits (c * powNum 10 power) (powDen 10 power)
      = Double.magnitude mantissa exponent := by
    apply magnitudeBits_of_roundsTo (Nat.mul_pos hcpos (powNum_pos (by decide) _)) hden hlegal
    rwa [mul_powNum_div_powDen (by decide), Nat.cast_ofNat]
  unfold bits?
  simp only [if_neg hcpos.ne', if_neg hfar, if_neg hnear, hbits, if_pos hlegal.magnitude_lt]

/-! What all digits that were found have in common, with those of zero among them. -/

section Digits

variable (tie : Tie) (negative : Bool) {mantissa : Nat} {exponent : Int}

theorem shortest_digits_ne_nil (h : Double.Legal mantissa exponent) :
    (Decimal.shortest tie negative mantissa exponent).digits ≠ [] := by
  rcases Nat.eq_zero_or_pos mantissa with rfl | hm
  · exact List.cons_ne_nil _ _
  · obtain ⟨c, _, _, _, hshortest⟩ := Shortest.exists_shortest_eq tie negative hm h
    rw [hshortest]
    exact stripZeros_ne_nil (digitsOf_ne_nil c)

theorem ofDigits_shortest_le (h : Double.Legal mantissa exponent) :
    ofDigits (Decimal.shortest tie negative mantissa exponent).digits ≤ 10 ^ 17 := by
  rcases Nat.eq_zero_or_pos mantissa with rfl | hm
  · exact Nat.zero_le _
  · obtain ⟨c, _, hc, _, hshortest⟩ := Shortest.exists_shortest_eq tie negative hm h
    rw [hshortest]
    exact (ofDigits_stripZeros_le c).trans hc

end Digits

theorem Double.Legal.eq_least_of_zero {exponent : Int} (h : Double.Legal 0 exponent) :
    exponent = Double.leastExponent := by
  rcases h.normal with hleast | hnormal
  · exact hleast
  · exact absurd hnormal (by decide)

namespace Numeral

/-- Whatever numeral denotes the decimal that was found, it is read as the double, if its digits
are few enough. -/
theorem bits?_of_magnitude_shortest {tie : Tie} {negative : Bool} {mantissa : Nat} {exponent : Int}
    (hlegal : Double.Legal mantissa exponent) {n : Numeral}
    (hn : (n.coefficient : ℚ) * 10 ^ n.power
      = (Decimal.shortest tie negative mantissa exponent).magnitude)
    (hle : n.coefficient ≤ 10 ^ 34) :
    Nearest.bits? n.coefficient n.power = some (Double.magnitude mantissa exponent) := by
  rcases Nat.eq_zero_or_pos mantissa with rfl | hm
  · -- zero is denoted by no digits other than zeros
    have hzero : (Decimal.shortest tie negative 0 exponent).magnitude = 0 := by
      simp [Decimal.shortest, Decimal.magnitude, ofDigits]
    have hcoefficient : n.coefficient = 0 := by
      rw [hzero, mul_eq_zero] at hn
      rcases hn with hc | hpower
      · exact_mod_cast hc
      · exact absurd hpower (by positivity)
    rw [hcoefficient, hlegal.eq_least_of_zero]
    rfl
  · obtain ⟨c, power, _, hround, hshortest⟩ := Shortest.exists_shortest_eq tie negative hm hlegal
    apply Nearest.bits?_of_roundsTo hm hlegal hle
    rw [hn, hshortest, magnitude_stripZeros]
    exact hround

theorem ofDecimal_shortest_coefficient_le (tie : Tie) (negative : Bool) {mantissa : Nat}
    {exponent : Int} (hlegal : Double.Legal mantissa exponent) :
    (ofDecimal (Decimal.shortest tie negative mantissa exponent)).coefficient ≤ 10 ^ 34 := by
  calc (ofDecimal (Decimal.shortest tie negative mantissa exponent)).coefficient
      ≤ ofDigits (Decimal.shortest tie negative mantissa exponent).digits * 10 ^ 17 :=
        ofDecimal_coefficient_le (shortest_digits_ne_nil tie negative hlegal)
    _ ≤ 10 ^ 17 * 10 ^ 17 := Nat.mul_le_mul_right _ (ofDigits_shortest_le tie negative hlegal)
    _ = 10 ^ 34 := by norm_num

/-- The numeral that is written for a double has its magnitude. -/
theorem bits?_ofDecimal_shortest (tie : Tie) (negative : Bool) {mantissa : Nat} {exponent : Int}
    (hlegal : Double.Legal mantissa exponent) :
    Nearest.bits? (ofDecimal (Decimal.shortest tie negative mantissa exponent)).coefficient
        (ofDecimal (Decimal.shortest tie negative mantissa exponent)).power
      = some (Double.magnitude mantissa exponent) :=
  bits?_of_magnitude_shortest hlegal
    (ofDecimal_magnitude (shortest_digits_ne_nil tie negative hlegal))
    (ofDecimal_shortest_coefficient_le tie negative hlegal)

theorem shortest_negative (tie : Tie) (negative : Bool) (mantissa : Nat) (exponent : Int) :
    (Decimal.shortest tie negative mantissa exponent).negative = negative := by
  unfold Decimal.shortest
  split
  · rfl
  · simp only
    split <;> rfl

/-- **The numeral of every finite double is read as that double.** -/
theorem exists_ofFloat?_of_isFinite {x : Float} (hx : isFinite x = true) :
    ∃ n, ofFloat? x = some n ∧ n.toFloat? = some x := by
  unfold isFinite at hx
  unfold ofFloat?
  cases hd : Double.ofFloat x with
  | notANumber => rw [hd] at hx; cases hx
  | infinite negative => rw [hd] at hx; cases hx
  | finite negative mantissa exponent =>
      have hlegal := (Double.finite_of_ofFloat hd).1
      refine ⟨_, rfl, ?_⟩
      rw [toFloat?_eq, ofDecimal_negative, shortest_negative]
      exact nearestDouble?_of_bits? hd (bits?_ofDecimal_shortest .even negative hlegal)

theorem isFinite_of_toFloat? {n : Numeral} {x : Float} (h : n.toFloat? = some x) :
    isFinite x = true :=
  isFinite_of_nearestDouble? h

end Numeral

end L32
