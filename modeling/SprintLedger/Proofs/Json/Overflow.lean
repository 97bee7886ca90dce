import SprintLedger.Proofs.Json.Doubles

set_option autoImplicit false

namespace SprintLedger.Json

-- Half-way from the greatest double, 2^1024 - 2^971, to 2^1024.
def overflowThreshold : ℚ := 2 ^ (1024 : Int) - 2 ^ (970 : Int)

theorem threshold_bounds : (2 : ℚ) ^ (1023 : Int) < overflowThreshold ∧ overflowThreshold < 2 ^ (1024 : Int) := by
  have split : (2 : ℚ) ^ (1024 : Int) = 2 ^ 1 * 2 ^ (1023 : Int) := power_split 1 1023
  have less : (2 : ℚ) ^ (970 : Int) < 2 ^ (1023 : Int) := zpow_lt_zpow_right₀ (by norm_num) (by norm_num)
  have positive : (0 : ℚ) < 2 ^ (970 : Int) := by positivity
  unfold overflowThreshold
  rw [split]
  generalize (2 : ℚ) ^ (970 : Int) = half at less positive
  generalize (2 : ℚ) ^ (1023 : Int) = power at less
  constructor
  · linarith
  · linarith

-- The odd mantissa below a power of two gives way to it at half a unit already.
theorem round_up_iff {num den top : Nat} (odd : top % 2 = 1) (hd : 0 < den) (below : num / den ≤ top) :
    roundHalfEven num den = top + 1 ↔ (2 * top + 1) * den ≤ 2 * num := by
  have rounded := Double.round_bounds num den
  have whole := Nat.div_add_mod num den
  have rest := Nat.mod_lt num hd
  have twice : (2 * top + 1) * den = 2 * (den * top) + den := by ring
  rcases Nat.lt_or_eq_of_le below with smaller | full
  · have product : den * (num / den + 1) ≤ den * top := Nat.mul_le_mul_left den smaller
    rw [Nat.mul_succ] at product
    constructor
    · intro up
      omega
    · intro large
      omega
  · unfold roundHalfEven
    dsimp only
    rw [full] at whole ⊢
    by_cases down : 2 * (num % den) < den ∨ 2 * (num % den) = den ∧ top % 2 = 0
    · rw [if_pos down]
      omega
    · rw [if_neg down]
      omega

namespace Double

theorem threshold_twice : overflowThreshold * 2 = (2 * 0x1fffffffffffff + 1) * 2 ^ (971 : Int) := by
  have greatest : (2 : ℚ) ^ (1024 : Int) = 2 ^ 54 * 2 ^ (970 : Int) := power_split 54 970
  have unit : (2 : ℚ) ^ (971 : Int) = 2 ^ 1 * 2 ^ (970 : Int) := power_split 1 970
  unfold overflowThreshold
  rw [greatest, unit]
  generalize (2 : ℚ) ^ (970 : Int) = half
  norm_num
  ring

theorem carried_iff {num den : Nat} (hd : 0 < den) (above : (num : ℚ) / den < 2 ^ (1024 : Int)) :
    roundHalfEven (num * (power 2 971).2) (den * (power 2 971).1) = 0x20000000000000 ↔
      overflowThreshold ≤ num / den := by
  obtain ⟨up, _⟩ := power_positive 2 (by decide) 971
  have cast := power_cast 2 (by decide) 971
  have one : (power 2 971).2 = 1 := rfl
  have below := (full_mantissa_iff hd 971).not.2 (not_le.2 above)
  have small : num * (power 2 971).2 / (den * (power 2 971).1) ≤ 0x1fffffffffffff := by omega
  rw [round_up_iff rfl (Nat.mul_pos hd up) small]
  rw [one, Nat.mul_one]
  rw [one, Nat.cast_one, div_one] at cast
  have positive : (0 : ℚ) < den := Nat.cast_pos.mpr hd
  have twice := threshold_twice
  rw [le_div_iff₀ positive, ← Nat.cast_le (α := ℚ)]
  push_cast
  rw [cast]
  generalize (2 : ℚ) ^ (971 : Int) = unit at twice
  generalize overflowThreshold = threshold at twice
  have scaled : threshold * den * 2 = (2 * 0x1fffffffffffff + 1) * (den * unit) := by
    rw [mul_right_comm, twice]
    ring
  constructor
  · intro large
    linarith
  · intro large
    linarith

theorem of_ratio_top {negative : Bool} {num den : Nat} (hn : 0 < num) (hd : 0 < den)
    (full : (2 : ℚ) ^ (1023 : Int) ≤ num / den) (above : (num : ℚ) / den < 2 ^ (1024 : Int)) :
    (∃ x, ofRatio? negative num den = some x) ↔ (num : ℚ) / den < overflowThreshold := by
  have exponent : exponentOf num den = 971 :=
    fits_unique (exponent_fits hn hd) ⟨by decide, above, .inl full⟩
  have carried := carried_iff hd above
  have rounded := round_bounds (num * (power 2 971).2) (den * (power 2 971).1)
  have least := (mantissa_iff hd 52 971).2 full
  have below := (full_mantissa_iff hd 971).not.2 (not_le.2 above)
  unfold ofRatio?
  dsimp only
  rw [exponent]
  generalize roundHalfEven (num * (power 2 971).2) (den * (power 2 971).1) = m at carried rounded
  by_cases carries : m = 0x20000000000000
  · have beyond : ¬IsCanonical 0x10000000000000 (971 + 1) := fun canonical => absurd canonical.2.2.1 (by decide)
    rw [if_pos carries, dif_neg beyond]
    exact iff_of_false (by simp) (not_lt.2 (carried.1 carries))
  · have canonical : IsCanonical m 971 := ⟨by omega, by decide, by decide, .inl (by omega)⟩
    rw [if_neg carries, dif_pos canonical]
    exact iff_of_true ⟨_, rfl⟩ (not_le.1 fun large => carries (carried.2 large))

theorem of_ratio_beyond (negative : Bool) {num den : Nat} (hn : 0 < num) (hd : 0 < den)
    (large : (2 : ℚ) ^ (1024 : Int) ≤ num / den) : ofRatio? negative num den = none := by
  obtain ⟨_, above, _⟩ := exponent_fits hn hd
  obtain ⟨q, exponent⟩ : ∃ q, exponentOf num den = q := ⟨_, rfl⟩
  rw [exponent] at above
  have powers := (zpow_lt_zpow_iff_right₀ (by norm_num : (1 : ℚ) < 2)).1 (large.trans_lt above)
  have beyond (m : Nat) (e : Int) (more : q ≤ e) : ¬IsCanonical m e := fun canonical => by
    have greatest := canonical.2.2.1
    omega
  unfold ofRatio?
  dsimp only
  rw [exponent]
  split
  · exact dif_neg (beyond _ _ (by omega))
  · exact dif_neg (beyond _ _ (by omega))

theorem of_ratio_exists_iff {negative : Bool} {num den : Nat} (hn : 0 < num) (hd : 0 < den) :
    (∃ x, ofRatio? negative num den = some x) ↔ (num : ℚ) / den < overflowThreshold := by
  obtain ⟨thresholdAbove, thresholdBelow⟩ := threshold_bounds
  by_cases small : (num : ℚ) / den < 2 ^ (1023 : Int)
  · exact iff_of_true (of_ratio_bounded negative hn hd small) (small.trans thresholdAbove)
  by_cases large : (num : ℚ) / den < 2 ^ (1024 : Int)
  · exact of_ratio_top hn hd (not_lt.1 small) large
  · rw [of_ratio_beyond negative hn hd (not_lt.1 large)]
    exact iff_of_false (by simp) (not_lt.2 (thresholdBelow.le.trans (not_lt.1 large)))

theorem threshold_positive : 0 < overflowThreshold := lt_trans (by positivity) threshold_bounds.1

theorem nearest_exists_iff (negative : Bool) {num den : Nat} (hd : 0 < den) :
    (∃ x, nearest? negative num den = some x) ↔ (num : ℚ) / den < overflowThreshold := by
  unfold nearest?
  by_cases zero : num = 0
  · rw [if_pos zero, zero, Nat.cast_zero, zero_div]
    exact iff_of_true ⟨_, rfl⟩ threshold_positive
  · rw [if_neg zero]
    exact of_ratio_exists_iff (Nat.pos_of_ne_zero zero) hd

theorem value_nonnegative (x : Double) : 0 ≤ x.value := by
  unfold value
  positivity

theorem value_below (x : Double) : x.value < overflowThreshold := by
  obtain ⟨mantissa, _, greatest, _⟩ := canonical_iff.1 x.canonical
  have digits : (x.mantissa : ℚ) ≤ 0x1fffffffffffff := by exact_mod_cast Nat.le_of_lt_succ mantissa
  have power : (2 : ℚ) ^ x.exponent ≤ 2 ^ (971 : Int) := zpow_le_zpow_right₀ (by norm_num) greatest
  have positive : (0 : ℚ) < 2 ^ (971 : Int) := by positivity
  have product : x.value ≤ 0x1fffffffffffff * 2 ^ (971 : Int) :=
    mul_le_mul digits power (by positivity) (by norm_num)
  have twice := threshold_twice
  generalize (2 : ℚ) ^ (971 : Int) = unit at positive product twice
  linarith

theorem times_exists_iff {x p : Double} : (∃ y, x.times? p = some y) ↔ x.value * p.value < overflowThreshold := by
  unfold times?
  rw [nearest_exists_iff _ (Nat.mul_pos x.ratio_positive p.ratio_positive), Nat.cast_mul, Nat.cast_mul,
    mul_div_mul_comm, ratio_value, ratio_value]

theorem over_exists (x : Double) {p : Double} (one : 1 ≤ p.value) : ∃ y, x.over? p = some y := by
  have positive : 0 < p.ratio.1 := by
    apply Nat.pos_of_ne_zero
    intro zero
    rw [← p.ratio_value, zero, Nat.cast_zero, zero_div] at one
    exact absurd one (by norm_num)
  unfold over?
  rw [nearest_exists_iff _ (Nat.mul_pos x.ratio_positive positive), Nat.cast_mul, Nat.cast_mul, mul_div_mul_comm,
    ratio_value, ← inv_div (p.ratio.1 : ℚ), ratio_value, ← div_eq_mul_inv]
  exact (div_le_self x.value_nonnegative one).trans_lt x.value_below

-- From one on, the last of the 53 bits counts at most 2^-52 of the quotient.
theorem of_ratio_one {negative : Bool} {num den : Nat} {x : Double} (hn : 0 < num) (hd : 0 < den)
    (one : (1 : ℚ) ≤ num / den) (rounded : ofRatio? negative num den = some x) :
    1 ≤ x.value ∧ x.value ≤ num / den * (1 + 1 / 2 ^ 53) ∧ num / den * (1 - 1 / 2 ^ 53) ≤ x.value := by
  obtain ⟨above, beneath⟩ := of_ratio_near hd rounded
  obtain ⟨_, high, low⟩ := exponent_fits hn hd
  obtain ⟨m, q, exponent, mantissa, value⟩ := of_ratio_rounds rounded
  rw [exponent] at above beneath high low
  have greater : -52 ≤ q := by
    have powers : (2 : ℚ) ^ (0 : Int) < 2 ^ (53 + q) := by
      rw [zpow_zero]
      exact one.trans_lt high
    have exponents := (zpow_lt_zpow_iff_right₀ (by norm_num : (1 : ℚ) < 2)).1 powers
    omega
  have full : (2 : ℚ) ^ (52 + q) ≤ num / den := low.resolve_right (by omega)
  have bits : 2 ^ 52 ≤ m := by
    rw [← mantissa]
    exact ((mantissa_iff hd 52 q).2 full).trans (round_bounds _ _).1
  have unit : (2 : ℚ) ^ (52 + q) = 2 ^ 52 * 2 ^ q := power_split 52 q
  refine ⟨?_, ?_, ?_⟩
  · have bitsCast : (2 : ℚ) ^ 52 ≤ m := by exact_mod_cast bits
    calc (1 : ℚ) ≤ 2 ^ (52 + q) := one_le_zpow₀ (by norm_num) (by omega)
      _ = 2 ^ 52 * 2 ^ q := unit
      _ ≤ m * 2 ^ q := mul_le_mul_of_nonneg_right bitsCast (by positivity)
      _ = x.value := value.symm
  · rw [unit] at full
    generalize (2 : ℚ) ^ q = last at above full
    linarith
  · rw [unit] at full
    generalize (2 : ℚ) ^ q = last at beneath full
    linarith

theorem ten_power_near {k : Nat} {p : Double} (power : tenPower? k = some p) :
    1 ≤ p.value ∧ p.value ≤ 10 ^ k * (1 + 1 / 2 ^ 53) ∧ 10 ^ k * (1 - 1 / 2 ^ 53) ≤ p.value := by
  have positive : 0 < Nat.pow 10 k := Nat.pow_pos (by decide)
  have one : (1 : ℚ) ≤ (Nat.pow 10 k : Nat) / (1 : Nat) := by
    rw [Nat.cast_one, div_one]
    exact_mod_cast positive
  simpa using of_ratio_one positive Nat.one_pos one power

theorem ten_power_exists_iff {k : Nat} : (∃ p, tenPower? k = some p) ↔ (10 : ℚ) ^ k < overflowThreshold := by
  have positive : 0 < Nat.pow 10 k := Nat.pow_pos (by decide)
  unfold tenPower?
  rw [of_ratio_exists_iff positive Nat.one_pos]
  simp

theorem ten_powers : (10 : ℚ) ^ 308 < overflowThreshold ∧ overflowThreshold < 10 ^ 309 := by
  constructor
  · have bound : (10 : ℚ) ^ 308 + 2 ^ (970 : Int) < 2 ^ (1024 : Int) := by
      exact_mod_cast (by decide +kernel : 10 ^ 308 + 2 ^ 970 < 2 ^ 1024)
    exact lt_sub_iff_add_lt.2 bound
  · have bound : (2 : ℚ) ^ (1024 : Int) < 10 ^ 309 := by exact_mod_cast (by decide +kernel : 2 ^ 1024 < 10 ^ 309)
    exact threshold_bounds.2.trans bound

theorem ten_power_exists {k : Nat} : (∃ p, tenPower? k = some p) ↔ k ≤ 308 := by
  obtain ⟨within, beyond⟩ := ten_powers
  have ten : (1 : ℚ) ≤ 10 := by norm_num
  rw [ten_power_exists_iff]
  constructor
  · intro small
    by_contra large
    exact absurd (beyond.trans_le (pow_le_pow_right₀ ten (by omega))) (not_lt.2 small.le)
  · intro small
    exact (pow_le_pow_right₀ ten small).trans_lt within

-- A zero stays what it is, and whatever is divided stays within the range.
theorem scale_zero {x : Double} (zero : x.mantissa = 0) (e : Int) : ∃ y, x.scale? e = some y := by
  have times (p : Double) : x.times? p = some (.zero x.negative) := by simp [times?, nearest?, ratio, zero]
  have divided (p : Double) : x.over? p = some (.zero x.negative) := by simp [over?, nearest?, ratio, zero]
  unfold scale?
  by_cases near : e.natAbs ≤ 308
  · obtain ⟨p, power⟩ := ten_power_exists.2 near
    rw [if_pos near, power, Option.bind_some]
    split
    · exact ⟨_, times p⟩
    · exact ⟨_, divided p⟩
  · rw [if_neg near, if_pos zero]
    exact ⟨x, rfl⟩

theorem scale_down (x : Double) {e : Int} (down : e < 0) : ∃ y, x.scale? e = some y := by
  fun_induction scale? x e with
  | case1 x e near =>
    obtain ⟨p, power⟩ := ten_power_exists.2 near
    rw [power, Option.bind_some, if_neg (by omega)]
    exact x.over_exists (ten_power_near power).1
  | case2 x e far zero => exact ⟨x, rfl⟩
  | case3 x e far nonzero up => omega
  | case4 x e far nonzero below ih =>
    obtain ⟨p, power⟩ := ten_power_exists.2 (Nat.le_refl 308)
    obtain ⟨y, divided⟩ := x.over_exists (ten_power_near power).1
    rw [power, Option.bind_some, divided, Option.bind_some]
    exact ih y (by omega)

theorem scale_up_iff {x : Double} (positive : x.mantissa ≠ 0) {e : Int} (up : 0 ≤ e) :
    (∃ y, x.scale? e = some y) ↔ ∃ p, tenPower? e.toNat = some p ∧ x.value * p.value < overflowThreshold := by
  have size : e.natAbs = e.toNat := by omega
  unfold scale?
  rw [size]
  by_cases near : e.toNat ≤ 308
  · obtain ⟨p, power⟩ := ten_power_exists.2 near
    rw [if_pos near, power, Option.bind_some, if_pos up, times_exists_iff]
    simp
  · rw [if_neg near, if_neg positive, if_pos up]
    refine iff_of_false (by simp) ?_
    rintro ⟨p, power, _⟩
    exact near (ten_power_exists.1 ⟨p, power⟩)

-- What the parts of a number give: a double, unless their product is nearer to 2^1024 than to any.
def PartsInRange (negative : Bool) (digits : Nat) (exponent : Int) : Prop :=
  digits = 0 ∨ exponent < 0 ∨ ∃ x p, nearest? negative digits 1 = some x ∧
    tenPower? exponent.toNat = some p ∧ x.value * p.value < overflowThreshold

theorem word_nearest {n : Nat} (word : n < 2 ^ 64) (negative : Bool) : ∃ x, nearest? negative n 1 = some x := by
  have wordCast : (n : ℚ) < 2 ^ (64 : Int) := by exact_mod_cast word
  have power : (2 : ℚ) ^ (64 : Int) < 2 ^ (1023 : Int) := zpow_lt_zpow_right₀ (by norm_num) (by norm_num)
  rw [nearest_exists_iff negative Nat.one_pos, Nat.cast_one, div_one]
  exact (wordCast.trans power).trans threshold_bounds.1

theorem digits_near {negative : Bool} {n : Nat} {x : Double} (positive : 0 < n)
    (rounded : nearest? negative n 1 = some x) :
    1 ≤ x.value ∧ x.value ≤ n * (1 + 1 / 2 ^ 53) ∧ n * (1 - 1 / 2 ^ 53) ≤ x.value := by
  have one : (1 : ℚ) ≤ n / (1 : Nat) := by
    rw [Nat.cast_one, div_one]
    exact_mod_cast positive
  rw [nearest?, if_neg positive.ne'] at rounded
  simpa using of_ratio_one positive Nat.one_pos one rounded

theorem of_parts_exists_iff {negative : Bool} {digits : Nat} {exponent : Int} (word : digits < 2 ^ 64) :
    (∃ y, ofParts? negative digits exponent = some y) ↔ PartsInRange negative digits exponent := by
  obtain ⟨x, rounded⟩ := word_nearest word negative
  unfold ofParts? PartsInRange
  rw [rounded, Option.bind_some]
  by_cases zero : digits = 0
  · have same : Double.zero negative = x := by
      rw [nearest?, if_pos zero] at rounded
      exact Option.some.inj rounded
    exact iff_of_true (scale_zero (same ▸ rfl) exponent) (.inl zero)
  by_cases down : exponent < 0
  · exact iff_of_true (x.scale_down down) (.inr (.inl down))
  have positive : x.mantissa ≠ 0 := by
    intro none
    have one := (digits_near (Nat.pos_of_ne_zero zero) rounded).1
    rw [value, none, Nat.cast_zero, zero_mul] at one
    exact absurd one (by norm_num)
  rw [scale_up_iff positive (not_lt.1 down)]
  simp [zero, down]

-- The three roundings add less than four units of the last place to what is at least as far from 2^1024.
def surelyInRange : ℚ := 2 ^ (1024 : Int) - 2 ^ (973 : Int)

theorem surely_below : surelyInRange * ((1 + 1 / 2 ^ 53) * (1 + 1 / 2 ^ 53)) < overflowThreshold := by
  have top : (2 : ℚ) ^ (1024 : Int) = 2 ^ 54 * 2 ^ (970 : Int) := power_split 54 970
  have margin : (2 : ℚ) ^ (973 : Int) = 2 ^ 3 * 2 ^ (970 : Int) := power_split 3 970
  have positive : (0 : ℚ) < 2 ^ (970 : Int) := by positivity
  unfold surelyInRange overflowThreshold
  rw [top, margin]
  generalize (2 : ℚ) ^ (970 : Int) = unit at positive
  norm_num
  linarith

theorem word_surely {n : Nat} (word : n < 2 ^ 64) : (n : ℚ) ≤ surelyInRange := by
  have wordCast : (n : ℚ) < 2 ^ (64 : Int) := by exact_mod_cast word
  have power : (2 : ℚ) ^ (64 : Int) ≤ 2 ^ (973 : Int) := zpow_le_zpow_right₀ (by norm_num) (by norm_num)
  have twice : (2 : ℚ) ^ (973 : Int) * 2 ≤ 2 ^ (1024 : Int) := by
    rw [← zpow_add_one₀ (by norm_num)]
    exact zpow_le_zpow_right₀ (by norm_num) (by norm_num)
  exact le_sub_iff_add_le.2 ((add_le_add_left (wordCast.le.trans power) _).trans ((mul_two _).symm.le.trans twice))

theorem small_parts_in_range {negative : Bool} {digits : Nat} {exponent : Int} (word : digits < 2 ^ 64)
    (small : decimalValue digits exponent ≤ surelyInRange) : PartsInRange negative digits exponent := by
  by_cases zero : digits = 0
  · exact .inl zero
  by_cases down : exponent < 0
  · exact .inr (.inl down)
  have positive : 0 < digits := Nat.pos_of_ne_zero zero
  obtain ⟨x, rounded⟩ := word_nearest word negative
  obtain ⟨_, digitsNear, _⟩ := digits_near positive rounded
  rw [decimal_value_whole _ (not_lt.1 down)] at small
  have one : (1 : ℚ) ≤ digits := by exact_mod_cast positive
  have alone : (10 : ℚ) ^ exponent.toNat ≤ surelyInRange :=
    (le_mul_of_one_le_left (by positivity) one).trans small
  have power : (10 : ℚ) ^ exponent.toNat < overflowThreshold := by
    refine alone.trans_lt (lt_of_le_of_lt ?_ surely_below)
    exact le_mul_of_one_le_right (le_trans (by positivity) alone) (by norm_num)
  obtain ⟨p, table⟩ := ten_power_exists_iff.2 power
  obtain ⟨unit, powerNear, _⟩ := ten_power_near table
  refine .inr (.inr ⟨x, p, rounded, table, lt_of_le_of_lt ?_ surely_below⟩)
  calc x.value * p.value ≤ digits * (1 + 1 / 2 ^ 53) * (10 ^ exponent.toNat * (1 + 1 / 2 ^ 53)) :=
        mul_le_mul digitsNear powerNear p.value_nonnegative (by positivity)
    _ = digits * 10 ^ exponent.toNat * ((1 + 1 / 2 ^ 53) * (1 + 1 / 2 ^ 53)) := by ring
    _ ≤ surelyInRange * ((1 + 1 / 2 ^ 53) * (1 + 1 / 2 ^ 53)) := mul_le_mul_of_nonneg_right small (by positivity)

theorem beyond_above : overflowThreshold * (1 + 1 / 2 ^ 57) <
    (2 ^ (1024 : Int) + 2 ^ (973 : Int)) * ((1 - 1 / 2 ^ 53) * (1 - 1 / 2 ^ 53)) := by
  have top : (2 : ℚ) ^ (1024 : Int) = 2 ^ 54 * 2 ^ (970 : Int) := power_split 54 970
  have margin : (2 : ℚ) ^ (973 : Int) = 2 ^ 3 * 2 ^ (970 : Int) := power_split 3 970
  have positive : (0 : ℚ) < 2 ^ (970 : Int) := by positivity
  unfold overflowThreshold
  rw [top, margin]
  generalize (2 : ℚ) ^ (970 : Int) = unit at positive
  norm_num
  linarith

theorem word_value_below {n : Nat} (word : n < 2 ^ 64) :
    (n : ℚ) * (1 + 1 / 2 ^ 57) < 2 ^ (1024 : Int) + 2 ^ (973 : Int) := by
  have wordCast : (n : ℚ) < 2 ^ (64 : Int) := by exact_mod_cast word
  have power : (2 : ℚ) ^ (65 : Int) ≤ 2 ^ (1024 : Int) := zpow_le_zpow_right₀ (by norm_num) (by norm_num)
  have positive : (0 : ℚ) < 2 ^ (973 : Int) := by positivity
  generalize (2 : ℚ) ^ (1024 : Int) = top at power
  generalize (2 : ℚ) ^ (973 : Int) = margin at positive
  generalize (n : ℚ) = size at wordCast
  norm_num at wordCast power ⊢
  linarith

-- Nor do they take away more than four units.
theorem parts_value_below {negative : Bool} {digits : Nat} {exponent : Int} (word : digits < 2 ^ 64)
    (inRange : PartsInRange negative digits exponent) :
    decimalValue digits exponent * (1 + 1 / 2 ^ 57) < 2 ^ (1024 : Int) + 2 ^ (973 : Int) := by
  by_cases down : exponent < 0
  · refine lt_of_le_of_lt ?_ (word_value_below word)
    refine mul_le_mul_of_nonneg_right ?_ (by norm_num)
    exact mul_le_of_le_one_right (Nat.cast_nonneg digits) (zpow_le_one_of_nonpos₀ (by norm_num) down.le)
  rcases Nat.eq_zero_or_pos digits with rfl | positive
  · rw [decimalValue, Nat.cast_zero, zero_mul, zero_mul]
    positivity
  obtain ⟨x, p, rounded, table, product⟩ := (inRange.resolve_left positive.ne').resolve_left down
  obtain ⟨_, _, digitsNear⟩ := digits_near positive rounded
  obtain ⟨_, _, powerNear⟩ := ten_power_near table
  have margin : (0 : ℚ) < (1 - 1 / 2 ^ 53) * (1 - 1 / 2 ^ 53) := by norm_num
  refine lt_of_mul_lt_mul_right ?_ margin.le
  calc decimalValue digits exponent * (1 + 1 / 2 ^ 57) * ((1 - 1 / 2 ^ 53) * (1 - 1 / 2 ^ 53))
      = digits * (1 - 1 / 2 ^ 53) * (10 ^ exponent.toNat * (1 - 1 / 2 ^ 53)) * (1 + 1 / 2 ^ 57) := by
        rw [decimal_value_whole _ (not_lt.1 down)]
        ring
    _ ≤ x.value * p.value * (1 + 1 / 2 ^ 57) := by
        refine mul_le_mul_of_nonneg_right ?_ (by norm_num)
        refine mul_le_mul digitsNear powerNear (mul_nonneg (by positivity) (by norm_num)) x.value_nonnegative
    _ ≤ overflowThreshold * (1 + 1 / 2 ^ 57) := mul_le_mul_of_nonneg_right product.le (by norm_num)
    _ < _ := beyond_above

theorem surely_bounds :
    (2 : ℚ) ^ (1023 : Int) < surelyInRange ∧ surelyInRange = 0x1ffffffffffffc * 2 ^ (971 : Int) := by
  have top : (2 : ℚ) ^ (1024 : Int) = 2 ^ 53 * 2 ^ (971 : Int) := power_split 53 971
  have half : (2 : ℚ) ^ (1023 : Int) = 2 ^ 52 * 2 ^ (971 : Int) := power_split 52 971
  have margin : (2 : ℚ) ^ (973 : Int) = 2 ^ 2 * 2 ^ (971 : Int) := power_split 2 971
  have positive : (0 : ℚ) < 2 ^ (971 : Int) := by positivity
  unfold surelyInRange
  rw [top, half, margin]
  generalize (2 : ℚ) ^ (971 : Int) = unit at positive
  constructor
  · norm_num
    linarith
  · norm_num
    ring

-- What is rounded from above that bound is one of the four doubles next to 2^1024.
theorem of_ratio_large {negative : Bool} {num den : Nat} {x : Double} (hn : 0 < num) (hd : 0 < den)
    (rounded : ofRatio? negative num den = some x) (large : surelyInRange < num / den) :
    0x1ffffffffffffc ≤ x.mantissa ∧ x.exponent = 971 := by
  obtain ⟨m, q, exponent, mantissa, made⟩ := of_ratio_inv rounded
  obtain ⟨half, bound⟩ := surely_bounds
  have below : (num : ℚ) / den < 2 ^ (1024 : Int) :=
    ((of_ratio_exists_iff hn hd).1 ⟨x, rounded⟩).trans threshold_bounds.2
  obtain rfl : q = 971 :=
    exponent.symm.trans (fits_unique (exponent_fits hn hd) ⟨by decide, below, .inl (half.trans large).le⟩)
  obtain ⟨up, _⟩ := power_positive 2 (by decide) 971
  have floor : 0x1ffffffffffffc ≤ num * (power 2 971).2 / (den * (power 2 971).1) := by
    have cast := power_cast 2 (by decide) 971
    have one : (power 2 971).2 = 1 := rfl
    rw [one, Nat.cast_one, div_one] at cast
    rw [Nat.le_div_iff_mul_le (Nat.mul_pos hd up), one, Nat.mul_one, ← Nat.cast_le (α := ℚ)]
    push_cast
    rw [cast]
    rw [bound, lt_div_iff₀ (Nat.cast_pos.mpr hd)] at large
    generalize (2 : ℚ) ^ (971 : Int) = unit at large
    linarith
  have atLeast := floor.trans (mantissa ▸ (round_bounds _ _).1)
  rcases made with ⟨digits, place⟩ | ⟨_, _, place⟩
  · exact ⟨digits ▸ atLeast, place⟩
  · have greatest := x.canonical.2.2.1
    omega

theorem of_decimal_large {negative : Bool} {n : Nat} {e : Int} {x : Double} (rounds : ofDecimal? negative n e = some x)
    (large : surelyInRange < decimalValue n e) : 0x1ffffffffffffc ≤ x.mantissa ∧ x.exponent = 971 := by
  have one : (1 : ℚ) < decimalValue n e :=
    lt_trans (one_lt_zpow₀ (by norm_num) (by norm_num)) (surely_bounds.1.trans large)
  have positive : 0 < n := by
    apply Nat.pos_of_ne_zero
    rintro rfl
    rw [decimalValue, Nat.cast_zero, zero_mul] at one
    exact absurd one (by norm_num)
  obtain ⟨up, down⟩ := power_positive 10 (by decide) e
  unfold ofDecimal? at rounds
  dsimp only at rounds
  rw [if_neg positive.ne'] at rounds
  split at rounds
  · cases rounds
  split at rounds
  · rename_i tiny
    have small := (value_size_bounds positive e).2.trans_le (zpow_le_one_of_nonpos₀ (by norm_num) (by omega))
    exact absurd small one.not_gt
  · exact of_ratio_large (Nat.mul_pos positive up) down rounds (by rwa [decimal_ratio])

end Double

end SprintLedger.Json
