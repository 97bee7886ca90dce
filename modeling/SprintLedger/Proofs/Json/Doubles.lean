import Mathlib.Algebra.Order.Field.Power
import Mathlib.Data.Nat.Cast.Order.Field
import Mathlib.Data.Rat.Cast.Order
import Mathlib.Tactic.FieldSimp
import Mathlib.Tactic.Linarith
import Mathlib.Tactic.NormNum
import Mathlib.Tactic.Positivity
import Mathlib.Tactic.Ring
import SprintLedger.Json.Shortest

set_option autoImplicit false

namespace SprintLedger.Json

theorem canonical_iff {m : Nat} {q : Int} : IsCanonical m q ↔
    m < 2 ^ 53 ∧ -1074 ≤ q ∧ q ≤ 971 ∧ (2 ^ 52 ≤ m ∨ q = -1074) := by
  norm_num [IsCanonical]

theorem power_cast (base : Nat) (positive : 0 < base) (e : Int) :
    ((power base e).1 : ℚ) / (power base e).2 = (base : ℚ) ^ e := by
  have nonzero : (base : ℚ) ≠ 0 := by positivity
  simp only [power, Nat.pow_eq, Nat.cast_pow]
  rcases Int.le_total 0 e with up | down
  · have none : (-e).toNat = 0 := by omega
    rw [none, pow_zero, div_one, ← zpow_natCast, Int.toNat_of_nonneg up]
  · have none : e.toNat = 0 := by omega
    rw [none, pow_zero, ← zpow_natCast, Int.toNat_of_nonneg (by omega), zpow_neg, one_div, inv_inv]

theorem power_split (bits : Nat) (e : Int) : (2 : ℚ) ^ (bits + e) = 2 ^ bits * 2 ^ e := by
  rw [zpow_add₀ (by norm_num), zpow_natCast]

theorem power_positive (base : Nat) (positive : 0 < base) (e : Int) :
    0 < (power base e).1 ∧ 0 < (power base e).2 :=
  ⟨Nat.pow_pos positive, Nat.pow_pos positive⟩

-- The exponent at which a quotient has a mantissa of 53 bits, or the least one.
def FitsAt (r : ℚ) (q : Int) : Prop :=
  -1074 ≤ q ∧ r < 2 ^ (53 + q) ∧ (2 ^ (52 + q) ≤ r ∨ q = -1074)

theorem fits_le {r : ℚ} {p q : Int} (hp : FitsAt r p) (hq : FitsAt r q) : p ≤ q := by
  obtain ⟨_, _, low⟩ := hp
  obtain ⟨least, above, _⟩ := hq
  rcases low with below | rfl
  · have powers : (2 : ℚ) ^ (52 + p) < 2 ^ (53 + q) := lt_of_le_of_lt below above
    have exponents := (zpow_lt_zpow_iff_right₀ (by norm_num : (1 : ℚ) < 2)).mp powers
    omega
  · exact least

theorem fits_unique {r : ℚ} {p q : Int} (hp : FitsAt r p) (hq : FitsAt r q) : p = q :=
  Int.le_antisymm (fits_le hp hq) (fits_le hq hp)

theorem ratio_log_bounds {num den : Nat} (hn : 0 < num) (hd : 0 < den) :
    (2 : ℚ) ^ ((num.log2 : Int) - den.log2 - 1) < num / den ∧
      (num : ℚ) / den < 2 ^ ((num.log2 : Int) - den.log2 + 1) := by
  have numLow : ((2 ^ num.log2 : Nat) : ℚ) ≤ num := Nat.cast_le.mpr (Nat.log2_self_le hn.ne')
  have numHigh : (num : ℚ) < ((2 ^ (num.log2 + 1) : Nat) : ℚ) := Nat.cast_lt.mpr Nat.lt_log2_self
  have denLow : ((2 ^ den.log2 : Nat) : ℚ) ≤ den := Nat.cast_le.mpr (Nat.log2_self_le hd.ne')
  have denHigh : (den : ℚ) < ((2 ^ (den.log2 + 1) : Nat) : ℚ) := Nat.cast_lt.mpr Nat.lt_log2_self
  have positive : (0 : ℚ) < den := Nat.cast_pos.mpr hd
  have two : (2 : ℚ) ≠ 0 := by norm_num
  push_cast at numLow numHigh denLow denHigh
  constructor
  · rw [lt_div_iff₀ positive]
    calc (2 : ℚ) ^ ((num.log2 : Int) - den.log2 - 1) * den
        < 2 ^ ((num.log2 : Int) - den.log2 - 1) * 2 ^ (den.log2 + 1) := by gcongr
      _ = 2 ^ num.log2 := by
        rw [← zpow_natCast, ← zpow_natCast, ← zpow_add₀ two]
        congr 1
        push_cast
        ring
      _ ≤ num := numLow
  · rw [div_lt_iff₀ positive]
    calc (num : ℚ) < 2 ^ (num.log2 + 1) := numHigh
      _ = 2 ^ ((num.log2 : Int) - den.log2 + 1) * 2 ^ den.log2 := by
        rw [← zpow_natCast, ← zpow_natCast, ← zpow_add₀ two]
        congr 1
        push_cast
        ring
      _ ≤ 2 ^ ((num.log2 : Int) - den.log2 + 1) * den := by gcongr

theorem mantissa_iff {num den : Nat} (hd : 0 < den) (bits : Nat) (q : Int) :
    2 ^ bits ≤ num * (power 2 q).2 / (den * (power 2 q).1) ↔ (2 : ℚ) ^ (bits + q) ≤ num / den := by
  obtain ⟨up, down⟩ := power_positive 2 (by decide) q
  have cast := power_cast 2 (by decide) q
  have upCast : (0 : ℚ) < (power 2 q).1 := Nat.cast_pos.mpr up
  have downCast : (0 : ℚ) < (power 2 q).2 := Nat.cast_pos.mpr down
  have denCast : (0 : ℚ) < den := Nat.cast_pos.mpr hd
  have split : (2 : ℚ) ^ (bits + q) = 2 ^ bits * ((power 2 q).1 / (power 2 q).2) := by
    rw [cast, power_split]
    norm_num
  rw [Nat.le_div_iff_mul_le (Nat.mul_pos hd up), split, le_div_iff₀ denCast, ← Nat.cast_le (α := ℚ)]
  push_cast
  constructor
  · intro bound
    rw [mul_div_assoc', div_mul_eq_mul_div, div_le_iff₀ downCast]
    linarith
  · intro bound
    rw [mul_div_assoc', div_mul_eq_mul_div, div_le_iff₀ downCast] at bound
    linarith

theorem full_mantissa_iff {num den : Nat} (hd : 0 < den) (q : Int) :
    0x20000000000000 ≤ num * (power 2 q).2 / (den * (power 2 q).1) ↔ (2 : ℚ) ^ (53 + q) ≤ num / den :=
  mantissa_iff hd 53 q

theorem exponent_fits {num den : Nat} (hn : 0 < num) (hd : 0 < den) :
    FitsAt (num / den) (exponentOf num den) := by
  obtain ⟨below, above⟩ := ratio_log_bounds hn hd
  have one : (1 : ℚ) ≤ 2 := by norm_num
  unfold exponentOf
  generalize guess : max ((num.log2 : Int) - den.log2 - 53) (-1074) = low
  have least : -1074 ≤ low := guess ▸ Int.le_max_right ..
  have bounded : (num : ℚ) / den < 2 ^ (54 + low) := by
    refine above.trans_le (zpow_le_zpow_right₀ one ?_)
    omega
  simp only [full_mantissa_iff hd low]
  split
  · rename_i full
    refine ⟨by omega, ?_, .inl ?_⟩
    · rwa [show (53 : Int) + (low + 1) = 54 + low by ring]
    · rwa [show (52 : Int) + (low + 1) = 53 + low by ring]
  · rename_i partial'
    refine ⟨least, not_le.mp partial', ?_⟩
    by_cases atLeast : low = -1074
    · exact .inr atLeast
    · refine .inl ((zpow_le_zpow_right₀ one ?_).trans below.le)
      omega

theorem round_scale (num den k : Nat) (hk : 0 < k) :
    roundHalfEven (num * k) (den * k) = roundHalfEven num den := by
  have rest : num * k % (den * k) = num % den * k := Nat.mul_mod_mul_right k num den
  have same : 2 * (num % den * k) = den * k ↔ 2 * (num % den) = den := by
    rw [← Nat.mul_assoc]
    exact Nat.mul_left_inj hk.ne'
  have less : 2 * (num % den * k) < den * k ↔ 2 * (num % den) < den := by
    rw [← Nat.mul_assoc]
    exact Nat.mul_lt_mul_right hk
  simp only [roundHalfEven, Nat.mul_div_mul_right num den hk, rest, same, less]

theorem round_ratio {a b c d : Nat} (hb : 0 < b) (hd : 0 < d) (same : a * d = c * b) :
    roundHalfEven a b = roundHalfEven c d := by
  rw [← round_scale a b d hd, ← round_scale c d b hb, same, Nat.mul_comm b d]

theorem ratio_cast {a b c d : Nat} (hb : 0 < b) (hd : 0 < d) :
    (a : ℚ) / b = c / d ↔ a * d = c * b := by
  have hb' : (b : ℚ) ≠ 0 := Nat.cast_ne_zero.mpr hb.ne'
  have hd' : (d : ℚ) ≠ 0 := Nat.cast_ne_zero.mpr hd.ne'
  rw [div_eq_div_iff hb' hd']
  exact_mod_cast Iff.rfl

namespace Double

theorem of_ratio_same {negative : Bool} {a b c d : Nat} (ha : 0 < a) (hb : 0 < b) (hc : 0 < c)
    (hd : 0 < d) (same : (a : ℚ) / b = c / d) : ofRatio? negative a b = ofRatio? negative c d := by
  have exponents : exponentOf a b = exponentOf c d := by
    apply fits_unique (exponent_fits ha hb)
    rw [same]
    exact exponent_fits hc hd
  obtain ⟨up, _⟩ := power_positive 2 (by decide) (exponentOf c d)
  have products := (ratio_cast hb hd).mp same
  have mantissas : roundHalfEven (a * (power 2 (exponentOf c d)).2) (b * (power 2 (exponentOf c d)).1) =
      roundHalfEven (c * (power 2 (exponentOf c d)).2) (d * (power 2 (exponentOf c d)).1) := by
    apply round_ratio (Nat.mul_pos hb up) (Nat.mul_pos hd up)
    calc a * (power 2 (exponentOf c d)).2 * (d * (power 2 (exponentOf c d)).1)
        = a * d * ((power 2 (exponentOf c d)).2 * (power 2 (exponentOf c d)).1) := by ring
      _ = c * b * ((power 2 (exponentOf c d)).2 * (power 2 (exponentOf c d)).1) := by rw [products]
      _ = c * (power 2 (exponentOf c d)).2 * (b * (power 2 (exponentOf c d)).1) := by ring
  simp only [ofRatio?, exponents, mantissas]

def decimalValue (digits : Nat) (exponent : Int) : ℚ := digits * 10 ^ exponent

theorem decimal_ratio (digits : Nat) (e : Int) :
    ((digits * (power 10 e).1 : Nat) : ℚ) / (power 10 e).2 = decimalValue digits e := by
  have cast := power_cast 10 (by decide) e
  rw [Nat.cast_mul, mul_div_assoc, cast]
  rfl

theorem length_digits_ten {n : Nat} (hn : 0 < n) :
    (Nat.toDigits 10 (n * 10)).length = (Nat.toDigits 10 n).length + 1 := by
  have split := Nat.toDigits_append_toDigits (b := 10) (n := n) (d := 0) (by decide) hn (by decide)
  rw [Nat.mul_comm, ← Nat.add_zero (10 * n), ← split, List.length_append, Nat.toDigits_zero]
  rfl

-- Moving a zero between the digits and the exponent changes neither the size nor the value.
theorem of_decimal_ten (negative : Bool) {n : Nat} (hn : 0 < n) (e : Int) :
    ofDecimal? negative (n * 10) e = ofDecimal? negative n (e + 1) := by
  have nonzero : n ≠ 0 := hn.ne'
  have nonzero' : n * 10 ≠ 0 := by omega
  have size : ((Nat.toDigits 10 (n * 10)).length : Int) + e = (Nat.toDigits 10 n).length + (e + 1) := by
    rw [length_digits_ten hn]
    push_cast
    ring
  have value : decimalValue (n * 10) e = decimalValue n (e + 1) := by
    rw [decimalValue, decimalValue, zpow_add_one₀ (by norm_num)]
    push_cast
    ring
  obtain ⟨up, down⟩ := power_positive 10 (by decide) e
  obtain ⟨up', down'⟩ := power_positive 10 (by decide) (e + 1)
  have ratios : ofRatio? negative (n * 10 * (power 10 e).1) (power 10 e).2 =
      ofRatio? negative (n * (power 10 (e + 1)).1) (power 10 (e + 1)).2 := by
    apply of_ratio_same (Nat.mul_pos (by omega) up) down (Nat.mul_pos hn up') down'
    rw [decimal_ratio, decimal_ratio, value]
  simp only [ofDecimal?, if_neg nonzero, if_neg nonzero', size, ratios]

theorem decimal_value_power (n k : Nat) (e : Int) : decimalValue (n * 10 ^ k) e = decimalValue n (e + k) := by
  rw [decimalValue, decimalValue, zpow_add₀ (by norm_num), zpow_natCast]
  push_cast
  ring

theorem decimal_value_whole (n : Nat) {e : Int} (whole : 0 ≤ e) : decimalValue n e = n * 10 ^ e.toNat := by
  rw [decimalValue, ← zpow_natCast, Int.toNat_of_nonneg whole]

theorem of_decimal_strip (negative : Bool) (d : Decimal) :
    ofDecimal? negative d.strip.digits d.strip.exponent = ofDecimal? negative d.digits d.exponent := by
  fun_induction Decimal.strip d with
  | case1 d zero ih =>
    obtain ⟨nonzero, divides⟩ := zero
    have positive : 0 < d.digits / 10 := by omega
    have whole : d.digits / 10 * 10 = d.digits := by omega
    rw [ih, ← of_decimal_ten negative positive, whole]
  | case2 => rfl

theorem value_size_bounds {n : Nat} (hn : 0 < n) (e : Int) :
    (10 : ℚ) ^ ((Nat.toDigits 10 n).length + e - 1) ≤ decimalValue n e ∧
      decimalValue n e < 10 ^ ((Nat.toDigits 10 n).length + e) := by
  have ten : (10 : ℚ) ≠ 0 := by norm_num
  have length : 0 < (Nat.toDigits 10 n).length := Nat.length_toDigits_pos
  have above : n < 10 ^ (Nat.toDigits 10 n).length :=
    (Nat.length_toDigits_le_iff (by decide) length).mp (Nat.le_refl _)
  have below : 10 ^ ((Nat.toDigits 10 n).length - 1) ≤ n := by
    rcases Nat.eq_zero_or_pos ((Nat.toDigits 10 n).length - 1) with single | more
    · rw [single]
      exact hn
    · apply Nat.le_of_not_lt
      intro less
      have shorter := (Nat.length_toDigits_le_iff (by decide) more).mpr less
      omega
  have aboveCast : (n : ℚ) < 10 ^ (Nat.toDigits 10 n).length := by exact_mod_cast above
  have belowCast : (10 : ℚ) ^ ((Nat.toDigits 10 n).length - 1) ≤ n := by exact_mod_cast below
  generalize (Nat.toDigits 10 n).length = size at length aboveCast belowCast
  have positive : (0 : ℚ) < 10 ^ e := by positivity
  constructor
  · rw [show ((size : Int) + e - 1) = ((size - 1 : Nat) : Int) + e by omega, zpow_add₀ ten, zpow_natCast]
    exact mul_le_mul_of_nonneg_right belowCast positive.le
  · rw [zpow_add₀ ten, zpow_natCast]
    exact mul_lt_mul_of_pos_right aboveCast positive

def value (x : Double) : ℚ := x.mantissa * 2 ^ x.exponent

theorem value_bounds (x : Double) (hm : 0 < x.mantissa) :
    (2 : ℚ) ^ (-1074 : Int) ≤ x.value ∧ x.value < 2 ^ (1024 : Int) := by
  obtain ⟨mantissa, least, greatest, _⟩ := canonical_iff.mp x.canonical
  have one : (1 : ℚ) ≤ 2 := by norm_num
  have positive : (0 : ℚ) < 2 ^ x.exponent := by positivity
  constructor
  · have whole : (1 : ℚ) ≤ x.mantissa := by exact_mod_cast hm
    calc (2 : ℚ) ^ (-1074 : Int) ≤ 2 ^ x.exponent := zpow_le_zpow_right₀ one least
      _ ≤ x.value := le_mul_of_one_le_left positive.le whole
  · have small : (x.mantissa : ℚ) < 2 ^ (53 : Int) := by exact_mod_cast mantissa
    calc x.value < 2 ^ (53 : Int) * 2 ^ x.exponent := mul_lt_mul_of_pos_right small positive
      _ = 2 ^ (53 + x.exponent) := (zpow_add₀ (by norm_num) _ _).symm
      _ ≤ 2 ^ (1024 : Int) := zpow_le_zpow_right₀ one (by omega)

theorem value_fits (x : Double) : FitsAt x.value x.exponent := by
  obtain ⟨mantissa, least, _, full⟩ := canonical_iff.mp x.canonical
  have two : (2 : ℚ) ≠ 0 := by norm_num
  have positive : (0 : ℚ) < 2 ^ x.exponent := by positivity
  refine ⟨least, ?_, full.imp ?_ id⟩
  · have small : (x.mantissa : ℚ) < 2 ^ (53 : Int) := by exact_mod_cast mantissa
    rw [zpow_add₀ two]
    exact mul_lt_mul_of_pos_right small positive
  · intro large
    have large' : (2 : ℚ) ^ (52 : Int) ≤ x.mantissa := by exact_mod_cast large
    rw [zpow_add₀ two]
    exact mul_le_mul_of_nonneg_right large' positive.le

theorem ratio_value (x : Double) : (x.ratio.1 : ℚ) / x.ratio.2 = x.value := by
  have cast := power_cast 2 (by decide) x.exponent
  show ((x.mantissa * (power 2 x.exponent).1 : Nat) : ℚ) / (power 2 x.exponent).2 = x.value
  rw [Nat.cast_mul, mul_div_assoc, cast]
  rfl

theorem ratio_positive (x : Double) : 0 < x.ratio.2 := (power_positive 2 (by decide) x.exponent).2

theorem of_ratio_value (x : Double) (hm : 0 < x.mantissa) {num den : Nat} (hn : 0 < num)
    (hd : 0 < den) (exactly : (num : ℚ) / den = x.value) : ofRatio? x.negative num den = some x := by
  obtain ⟨up, down⟩ := power_positive 2 (by decide) x.exponent
  have written : ((x.mantissa * (power 2 x.exponent).1 : Nat) : ℚ) / (power 2 x.exponent).2 = x.value := x.ratio_value
  rw [of_ratio_same hn hd (Nat.mul_pos hm up) down (exactly.trans written.symm)]
  have exponent : exponentOf (x.mantissa * (power 2 x.exponent).1) (power 2 x.exponent).2 = x.exponent := by
    apply fits_unique _ (value_fits x)
    rw [← written]
    exact exponent_fits (Nat.mul_pos hm up) down
  have mantissa : roundHalfEven (x.mantissa * (power 2 x.exponent).1 * (power 2 x.exponent).2)
      ((power 2 x.exponent).2 * (power 2 x.exponent).1) = x.mantissa := by
    have whole : roundHalfEven x.mantissa 1 = x.mantissa := by simp [roundHalfEven, Nat.mod_one]
    calc _ = roundHalfEven x.mantissa 1 := by
          apply round_ratio (Nat.mul_pos down up) Nat.one_pos
          ring
      _ = x.mantissa := whole
  have carried : x.mantissa ≠ 0x20000000000000 := x.canonical.1.ne
  simp only [ofRatio?, exponent, mantissa, if_neg carried, dif_pos x.canonical]

theorem round_bounds (num den : Nat) : num / den ≤ roundHalfEven num den ∧ roundHalfEven num den ≤ num / den + 1 := by
  unfold roundHalfEven
  dsimp only
  split <;> omega

theorem round_half (num : Nat) {den : Nat} (hd : 0 < den) :
    2 * (den * roundHalfEven num den) ≤ 2 * num + den ∧ 2 * num ≤ 2 * (den * roundHalfEven num den) + den := by
  have whole := Nat.div_add_mod num den
  have rest := Nat.mod_lt num hd
  unfold roundHalfEven
  dsimp only
  split
  · omega
  · rw [Nat.mul_succ]
    omega

-- The rounded mantissa stands at the exponent of the quotient, unless it has become a power of two.
theorem of_ratio_inv {negative : Bool} {num den : Nat} {x : Double} (rounded : ofRatio? negative num den = some x) :
    ∃ m q, exponentOf num den = q ∧ roundHalfEven (num * (power 2 q).2) (den * (power 2 q).1) = m ∧
      (x.mantissa = m ∧ x.exponent = q ∨
        m = 0x20000000000000 ∧ x.mantissa = 0x10000000000000 ∧ x.exponent = q + 1) := by
  obtain ⟨q, exponent⟩ : ∃ q, exponentOf num den = q := ⟨_, rfl⟩
  obtain ⟨m, mantissa⟩ : ∃ m, roundHalfEven (num * (power 2 q).2) (den * (power 2 q).1) = m := ⟨_, rfl⟩
  refine ⟨m, q, exponent, mantissa, ?_⟩
  simp only [ofRatio?, exponent, mantissa] at rounded
  by_cases carried : m = 0x20000000000000
  · simp only [if_pos carried] at rounded
    obtain ⟨_, same⟩ := Option.dite_none_right_eq_some.1 rounded
    obtain rfl := Option.some.inj same
    exact .inr ⟨carried, rfl, rfl⟩
  · simp only [if_neg carried] at rounded
    obtain ⟨_, same⟩ := Option.dite_none_right_eq_some.1 rounded
    obtain rfl := Option.some.inj same
    exact .inl ⟨rfl, rfl⟩

theorem of_ratio_rounds {negative : Bool} {num den : Nat} {x : Double} (rounded : ofRatio? negative num den = some x) :
    ∃ m q, exponentOf num den = q ∧ roundHalfEven (num * (power 2 q).2) (den * (power 2 q).1) = m ∧
      x.value = m * 2 ^ q := by
  obtain ⟨m, q, exponent, mantissa, ⟨digits, place⟩ | ⟨carried, digits, place⟩⟩ := of_ratio_inv rounded
  · exact ⟨m, q, exponent, mantissa, by rw [Double.value, digits, place]⟩
  · refine ⟨m, q, exponent, mantissa, ?_⟩
    rw [Double.value, digits, place, carried, zpow_add_one₀ (by norm_num)]
    push_cast
    ring

-- Half a unit of the last place, at most.
theorem of_ratio_near {negative : Bool} {num den : Nat} {x : Double} (hd : 0 < den)
    (rounded : ofRatio? negative num den = some x) :
    2 * x.value ≤ 2 * (num / den) + 2 ^ exponentOf num den ∧
      2 * ((num : ℚ) / den) ≤ 2 * x.value + 2 ^ exponentOf num den := by
  obtain ⟨m, q, exponent, mantissa, value⟩ := of_ratio_rounds rounded
  obtain ⟨up, down⟩ := power_positive 2 (by decide) q
  have cast := power_cast 2 (by decide) q
  obtain ⟨above, below⟩ := round_half (num * (power 2 q).2) (Nat.mul_pos hd up)
  rw [mantissa, ← Nat.cast_le (α := ℚ)] at above below
  push_cast at above below cast
  have denominator : (0 : ℚ) < den := Nat.cast_pos.mpr hd
  have downCast : (0 : ℚ) < (power 2 q).2 := Nat.cast_pos.mpr down
  have upper : ((power 2 q).1 : ℚ) = 2 ^ q * (power 2 q).2 := (div_eq_iff downCast.ne').1 cast
  rw [upper] at above below
  rw [exponent, value]
  generalize ((power 2 q).2 : ℚ) = d at above below downCast
  have quotient : (num : ℚ) = num / den * den := (div_mul_cancel₀ _ denominator.ne').symm
  generalize (num : ℚ) / den = r at quotient
  rw [quotient] at above below
  have positive : 0 < (den : ℚ) * d := mul_pos denominator downCast
  constructor
  · refine le_of_mul_le_mul_right ?_ positive
    linarith
  · refine le_of_mul_le_mul_right ?_ positive
    linarith

-- Below 2^1023 even a mantissa that is rounded up to the next power of two has an exponent.
theorem of_ratio_bounded (negative : Bool) {num den : Nat} (hn : 0 < num) (hd : 0 < den)
    (small : (num : ℚ) / den < 2 ^ (1023 : Int)) : ∃ x, ofRatio? negative num den = some x := by
  obtain ⟨least, above, low⟩ := exponent_fits hn hd
  obtain ⟨q, exponent⟩ : ∃ q, exponentOf num den = q := ⟨_, rfl⟩
  rw [exponent] at least above low
  obtain ⟨m, mantissa⟩ : ∃ m, roundHalfEven (num * (power 2 q).2) (den * (power 2 q).1) = m := ⟨_, rfl⟩
  have rounded := round_bounds (num * (power 2 q).2) (den * (power 2 q).1)
  rw [mantissa] at rounded
  have below := (full_mantissa_iff hd q).not.2 (not_le.2 above)
  have greatest : q ≤ 970 := by
    rcases low with full | minimal
    · have exponents := (zpow_lt_zpow_iff_right₀ (by norm_num : (1 : ℚ) < 2)).1 (full.trans_lt small)
      omega
    · omega
  have full : 2 ^ 52 ≤ m ∨ q = -1074 :=
    low.imp_left fun large => ((mantissa_iff hd 52 q).2 large).trans rounded.1
  by_cases carried : m = 0x20000000000000
  · have canonical : IsCanonical 0x10000000000000 (q + 1) := ⟨by decide, by omega, by omega, .inl (by decide)⟩
    refine ⟨⟨negative, 0x10000000000000, q + 1, canonical⟩, ?_⟩
    simp only [ofRatio?, exponent, mantissa, if_pos carried, dif_pos canonical]
  · have canonical : IsCanonical m q := ⟨by omega, least, by omega, full⟩
    refine ⟨⟨negative, m, q, canonical⟩, ?_⟩
    simp only [ofRatio?, exponent, mantissa, if_neg carried, dif_pos canonical]

theorem of_decimal_value (x : Double) (hm : 0 < x.mantissa) {n : Nat} (hn : 0 < n) {e : Int}
    (exactly : decimalValue n e = x.value) : ofDecimal? x.negative n e = some x := by
  obtain ⟨low, high⟩ := value_size_bounds hn e
  obtain ⟨least, greatest⟩ := value_bounds x hm
  rw [exactly] at low high
  have ten : (1 : ℚ) < 10 := by norm_num
  have notLarge : ¬310 < (Nat.toDigits 10 n).length + e := by
    intro large
    have power : (10 : ℚ) ^ (310 : Int) ≤ 10 ^ ((Nat.toDigits 10 n).length + e - 1) :=
      zpow_le_zpow_right₀ ten.le (by omega)
    have bound : (2 : ℚ) ^ (1024 : Int) < 10 ^ (310 : Int) := by
      exact_mod_cast (by decide +kernel : 2 ^ 1024 < 10 ^ 310)
    exact absurd (power.trans low) (not_le.mpr (greatest.trans bound))
  have notSmall : ¬(Nat.toDigits 10 n).length + e < -330 := by
    intro small
    have power : (10 : ℚ) ^ ((Nat.toDigits 10 n).length + e) ≤ 10 ^ (-330 : Int) :=
      zpow_le_zpow_right₀ ten.le (by omega)
    have bound : (10 : ℚ) ^ (-330 : Int) < 2 ^ (-1074 : Int) := by
      rw [zpow_neg, zpow_neg, inv_lt_inv₀ (by positivity) (by positivity)]
      exact_mod_cast (by decide +kernel : 2 ^ 1074 < 10 ^ 330)
    exact absurd (high.trans_le power) (not_lt.mpr (bound.le.trans least))
  obtain ⟨up, down⟩ := power_positive 10 (by decide) e
  have rounded : ofRatio? x.negative (n * (power 10 e).1) (power 10 e).2 = some x := by
    apply of_ratio_value x hm (Nat.mul_pos hn up) down
    rw [decimal_ratio, exactly]
  simp only [ofDecimal?, if_neg hn.ne', if_neg notLarge, if_neg notSmall, rounded]

theorem exact_value (x : Double) : decimalValue x.exact.digits x.exact.exponent = x.value := by
  unfold exact decimalValue value
  simp only [Nat.pow_eq]
  split
  · rename_i whole
    have cast : ((2 : ℚ) ^ x.exponent.toNat) = 2 ^ x.exponent := by
      rw [← zpow_natCast, Int.toNat_of_nonneg whole]
    push_cast
    rw [cast, mul_one]
  · rename_i fraction
    have cast : ((5 : ℚ) ^ (-x.exponent).toNat) = 5 ^ (-x.exponent) := by
      rw [← zpow_natCast, Int.toNat_of_nonneg (by omega)]
    have ten : (10 : ℚ) = 2 * 5 := by norm_num
    have five : (5 : ℚ) ^ x.exponent ≠ 0 := by positivity
    push_cast
    rw [cast, ten, mul_zpow, zpow_neg]
    field_simp

theorem on_grid_reads {x : Double} {unit : Int} {d : Decimal} (found : x.onGrid? unit = some d) :
    ofDecimal? x.negative d.digits d.exponent = some x := by
  obtain ⟨c, chosen, rfl⟩ := Option.map_eq_some_iff.mp found
  simpa using List.find?_some chosen

-- Every candidate is tested before it is taken, and the exact value passes the test too.
theorem shortest_reads (x : Double) (hm : 0 < x.mantissa) :
    ofDecimal? x.negative x.shortest.digits x.shortest.exponent = some x := by
  simp only [shortest, of_decimal_strip]
  cases grid : (List.range 17).findSome? fun (n : Nat) => x.onGrid? (sizeOfRatio x.ratio.1 x.ratio.2 - (n + 1)) with
  | none =>
    apply of_decimal_value x hm ?_ (exact_value x)
    unfold exact
    simp only [Nat.pow_eq]
    split <;> positivity
  | some d =>
    obtain ⟨n, _, found⟩ := List.exists_of_findSome?_eq_some grid
    exact on_grid_reads found

theorem shortest_digits_positive (x : Double) (hm : 0 < x.mantissa) : 0 < x.shortest.digits := by
  apply Nat.pos_of_ne_zero
  intro zero
  have reads := shortest_reads x hm
  rw [zero] at reads
  have same : Double.zero x.negative = x := Option.some.inj reads
  have mantissa : (0 : Nat) = x.mantissa := congrArg Double.mantissa same
  omega

end Double

end SprintLedger.Json
