import SprintLedger.Json.Number
import SprintLedger.Proofs.Json.Doubles
import SprintLedger.Proofs.Text.Decimals

set_option autoImplicit false

namespace SprintLedger.Json.Numeral

def value (n : Numeral) : ℚ := Double.decimalValue n.decimal.digits n.decimal.exponent

theorem gather_word {taken : Nat} (word : taken < 2 ^ 64) (cs : List Char) : (gather taken cs).1 < 2 ^ 64 := by
  fun_induction gather taken cs with
  | case1 taken => exact word
  | case2 taken c cs next fits ih => exact ih fits
  | case3 taken c cs next full => exact word

theorem gather_unread (taken : Nat) (cs : List Char) : (gather taken cs).2 ≤ cs.length := by
  fun_induction gather taken cs with
  | case1 taken => exact Nat.le_refl 0
  | case2 taken c cs next fits ih => exact Nat.le_succ_of_le ih
  | case3 taken c cs next full => exact Nat.le_refl _

theorem gather_none (taken : Nat) (cs : List Char) (none : (gather taken cs).2 = cs.length) :
    (gather taken cs).1 = taken := by
  cases cs with
  | nil => rfl
  | cons c cs =>
    unfold gather at none ⊢
    dsimp only at none ⊢
    split
    · rename_i fits
      rw [if_pos fits, List.length_cons] at none
      have left := gather_unread (10 * taken + (c.toNat - '0'.toNat)) cs
      omega
    · rfl

theorem digits_from (taken : Nat) (cs : List Char) :
    Nat.ofDigitChars 10 cs taken = 10 ^ cs.length * taken + Nat.ofDigitChars 10 cs 0 :=
  Nat.ofDigitChars_eq_ofDigitChars_zero

theorem gather_le (taken : Nat) (cs : List Char) :
    10 ^ (gather taken cs).2 * (gather taken cs).1 ≤ Nat.ofDigitChars 10 cs taken := by
  fun_induction gather taken cs with
  | case1 taken => exact Nat.le_of_eq (Nat.one_mul taken)
  | case2 taken c cs next fits ih => exact ih
  | case3 taken c cs next full =>
    rw [digits_from]
    exact Nat.le_add_right _ _

-- Where a digit is left out, with it the number would not have been below 2^64.
theorem gather_full {taken : Nat} {cs : List Char} (left : 0 < (gather taken cs).2) :
    10 ^ ((gather taken cs).2 - 1) * 2 ^ 64 ≤ Nat.ofDigitChars 10 cs taken := by
  fun_induction gather taken cs with
  | case1 taken => exact absurd left (Nat.lt_irrefl 0)
  | case2 taken c cs next fits ih => exact ih left
  | case3 taken c cs next full =>
    rw [Nat.ofDigitChars_cons, digits_from]
    have large : 2 ^ 64 ≤ next := Nat.not_lt.1 full
    have product := Nat.mul_le_mul_left (10 ^ cs.length) large
    exact product.trans (Nat.le_add_right _ _)

theorem digits_monotone {a b : Nat} (le : a ≤ b) (cs : List Char) :
    Nat.ofDigitChars 10 cs a ≤ Nat.ofDigitChars 10 cs b := by
  rw [digits_from a, digits_from b]
  exact Nat.add_le_add_right (Nat.mul_le_mul_left _ le) _

theorem gather_both_le (whole fraction : List Char) :
    10 ^ ((gather 0 whole).2 + (gather (gather 0 whole).1 fraction).2) * (gather (gather 0 whole).1 fraction).1 ≤
      Nat.ofDigitChars 10 (whole ++ fraction) 0 := by
  rw [Nat.ofDigitChars_append]
  have written := gather_le 0 whole
  have behind := gather_le (gather 0 whole).1 fraction
  have word := gather_word (gather_word (by decide : 0 < 2 ^ 64) whole) fraction
  have most := gather_unread (gather 0 whole).1 fraction
  by_cases all : (gather 0 whole).2 = 0
  · rw [all, Nat.pow_zero, Nat.one_mul] at written
    rw [all, Nat.zero_add]
    exact behind.trans (digits_monotone written fraction)
  have full := gather_full (Nat.pos_of_ne_zero all)
  have none := gather_none (gather 0 whole).1 fraction
  generalize (gather (gather 0 whole).1 fraction).1 = digits at behind word none ⊢
  generalize (gather (gather 0 whole).1 fraction).2 = unread at behind most none ⊢
  generalize (gather 0 whole).2 = left at written all full ⊢
  generalize Nat.ofDigitChars 10 whole 0 = front at written full ⊢
  have shifted : 10 ^ fraction.length * front ≤ Nat.ofDigitChars 10 fraction front := by
    rw [digits_from front]
    exact Nat.le_add_right _ _
  refine le_trans ?_ shifted
  rcases Nat.eq_or_lt_of_le most with rest | some
  · rw [none rest, rest, Nat.pow_add, Nat.mul_comm (10 ^ left), Nat.mul_assoc]
    exact Nat.mul_le_mul_left _ written
  · have places : left + unread = (unread + 1) + (left - 1) := by omega
    calc 10 ^ (left + unread) * digits ≤ 10 ^ (left + unread) * 2 ^ 64 := Nat.mul_le_mul_left _ word.le
      _ = 10 ^ (unread + 1) * (10 ^ (left - 1) * 2 ^ 64) := by rw [places, Nat.pow_add, Nat.mul_assoc]
      _ ≤ 10 ^ (unread + 1) * front := Nat.mul_le_mul_left _ full
      _ ≤ 10 ^ fraction.length * front := Nat.mul_le_mul_right _ (Nat.pow_le_pow_right (by decide) some)

-- Nor is it much less: what is left out behind a taken digit is less than one of its units.
theorem gather_over (taken : Nat) {cs : List Char} (digits : ∀ c ∈ cs, c.isDigit = true) :
    Nat.ofDigitChars 10 cs taken < 10 ^ (gather taken cs).2 * ((gather taken cs).1 + 1) := by
  fun_induction gather taken cs with
  | case1 taken => simp
  | case2 taken c cs next fits ih => exact ih fun d member => digits d (List.mem_cons_of_mem c member)
  | case3 taken c cs next full =>
    rw [digits_from, Nat.mul_succ]
    exact Nat.add_lt_add_left (Text.digits_below digits) _

theorem gather_large (taken : Nat) {cs : List Char} (digits : ∀ c ∈ cs, c.isDigit = true)
    (left : 0 < (gather taken cs).2) : 2 ^ 64 ≤ 10 * (gather taken cs).1 + 9 := by
  fun_induction gather taken cs with
  | case1 taken => exact absurd left (Nat.lt_irrefl 0)
  | case2 taken c cs next fits ih => exact ih (fun d member => digits d (List.mem_cons_of_mem c member)) left
  | case3 taken c cs next full =>
    obtain ⟨_, greatest⟩ := Text.digit_value (digits c List.mem_cons_self)
    have large : 2 ^ 64 ≤ 10 * taken + (c.toNat - '0'.toNat) := Nat.not_lt.1 full
    have zero : '0'.toNat = 48 := rfl
    dsimp only
    omega

theorem gather_stays {taken : Nat} (large : 2 ^ 64 ≤ 10 * taken) (cs : List Char) :
    gather taken cs = (taken, cs.length) := by
  cases cs with
  | nil => rfl
  | cons c cs =>
    unfold gather
    exact if_neg (by omega)

-- A digit behind the point may still fit where one in front of it did not, but no second one.
theorem gather_once {taken : Nat} (large : 2 ^ 64 ≤ 10 * taken + 9) (cs : List Char) :
    10 ^ cs.length * (taken + 1) ≤ 10 ^ (gather taken cs).2 * ((gather taken cs).1 + 10) := by
  cases cs with
  | nil => simp [gather]
  | cons c cs =>
    unfold gather
    dsimp only
    split
    · rw [gather_stays (by omega), List.length_cons, Nat.pow_succ, Nat.mul_assoc]
      exact Nat.mul_le_mul_left _ (by omega)
    · exact Nat.mul_le_mul_left _ (by omega)

theorem gather_from (taken : Nat) (cs : List Char) : taken ≤ (gather taken cs).1 := by
  fun_induction gather taken cs with
  | case1 taken => exact Nat.le_refl taken
  | case2 taken c cs next fits ih => omega
  | case3 taken c cs next full => exact Nat.le_refl taken

theorem gather_both_over {whole fraction : List Char} (digits : ∀ c ∈ whole ++ fraction, c.isDigit = true) :
    2 ^ 57 * Nat.ofDigitChars 10 (whole ++ fraction) 0 ≤
      10 ^ ((gather 0 whole).2 + (gather (gather 0 whole).1 fraction).2) *
        ((2 ^ 57 + 1) * (gather (gather 0 whole).1 fraction).1) := by
  obtain ⟨front, behind⟩ := List.forall_mem_append.1 digits
  rw [Nat.ofDigitChars_append]
  have written := gather_le 0 whole
  have larger := gather_over 0 front
  by_cases all : (gather 0 whole).2 = 0
  · rw [all, Nat.pow_zero, Nat.one_mul] at written larger
    have same : Nat.ofDigitChars 10 whole 0 = (gather 0 whole).1 := by omega
    have last := gather_over (gather 0 whole).1 behind
    have large := gather_large (gather 0 whole).1 behind
    rw [all, Nat.zero_add, same]
    generalize Nat.ofDigitChars 10 fraction (gather 0 whole).1 = value at last
    generalize gather (gather 0 whole).1 fraction = kept at last large
    obtain ⟨kept, left⟩ := kept
    dsimp only at last large ⊢
    rcases Nat.eq_zero_or_pos left with rfl | some
    · omega
    have size := large some
    calc 2 ^ 57 * value ≤ 2 ^ 57 * (10 ^ left * (kept + 1)) := Nat.mul_le_mul_left _ last.le
      _ = 10 ^ left * (2 ^ 57 * (kept + 1)) := Nat.mul_left_comm ..
      _ ≤ 10 ^ left * ((2 ^ 57 + 1) * kept) := Nat.mul_le_mul_left _ (by omega)
  · have size := gather_large 0 front (Nat.pos_of_ne_zero all)
    have once := gather_once size fraction
    have least := gather_from (gather 0 whole).1 fraction
    have rest := Text.digits_below behind
    rw [digits_from]
    generalize gather (gather 0 whole).1 fraction = kept at once least
    generalize gather 0 whole = first at larger size once least
    generalize Nat.ofDigitChars 10 whole 0 = value at larger
    generalize Nat.ofDigitChars 10 fraction 0 = tail at rest
    obtain ⟨kept, left⟩ := kept
    obtain ⟨first, unread⟩ := first
    dsimp only at larger size once least ⊢
    calc 2 ^ 57 * (10 ^ fraction.length * value + tail)
        ≤ 2 ^ 57 * (10 ^ fraction.length * (value + 1)) := by
          rw [Nat.mul_succ]
          exact Nat.mul_le_mul_left _ (Nat.add_le_add_left rest.le _)
      _ ≤ 2 ^ 57 * (10 ^ fraction.length * (10 ^ unread * (first + 1))) :=
          Nat.mul_le_mul_left _ (Nat.mul_le_mul_left _ larger)
      _ = 10 ^ unread * (2 ^ 57 * (10 ^ fraction.length * (first + 1))) := by ring
      _ ≤ 10 ^ unread * (2 ^ 57 * (10 ^ left * (kept + 10))) :=
          Nat.mul_le_mul_left _ (Nat.mul_le_mul_left _ once)
      _ = 10 ^ (unread + left) * (2 ^ 57 * (kept + 10)) := by ring
      _ ≤ 10 ^ (unread + left) * ((2 ^ 57 + 1) * kept) := Nat.mul_le_mul_left _ (by omega)

theorem held_word (n : Numeral) : n.held.digits < 2 ^ 64 :=
  gather_word (gather_word (by decide) n.whole) n.fraction

theorem held_place (n : Numeral) :
    (10 : ℚ) ^ n.held.exponent = 10 ^ ((gather 0 n.whole).2 + (gather (gather 0 n.whole).1 n.fraction).2) *
      10 ^ n.decimal.exponent := by
  have place : n.held.exponent =
      ((gather 0 n.whole).2 + (gather (gather 0 n.whole).1 n.fraction).2 : Nat) + n.decimal.exponent := by
    simp only [held, decimal]
    push_cast
    ring
  rw [place, zpow_add₀ (by norm_num), zpow_natCast]

theorem held_value_le (n : Numeral) : Double.decimalValue n.held.digits n.held.exponent ≤ n.value := by
  have product := gather_both_le n.whole n.fraction
  rw [← Nat.cast_le (α := ℚ)] at product
  push_cast at product
  rw [value, Double.decimalValue, Double.decimalValue, held_place, ← mul_assoc]
  refine mul_le_mul_of_nonneg_right ?_ (by positivity)
  rw [mul_comm]
  exact product

theorem held_value_over {n : Numeral} (digits : ∀ c ∈ n.whole ++ n.fraction, c.isDigit = true) :
    n.value ≤ Double.decimalValue n.held.digits n.held.exponent * (1 + 1 / 2 ^ 57) := by
  have product := gather_both_over digits
  rw [← Nat.cast_le (α := ℚ)] at product
  push_cast at product
  have positive : (0 : ℚ) < 10 ^ n.decimal.exponent := by positivity
  rw [value, Double.decimalValue, Double.decimalValue, held_place, ← mul_assoc, mul_right_comm]
  refine mul_le_mul_of_nonneg_right ?_ positive.le
  show ((Nat.ofDigitChars 10 (n.whole ++ n.fraction) 0 : Nat) : ℚ) ≤
    (gather (gather 0 n.whole).1 n.fraction).1 * 10 ^ _ * (1 + 1 / 2 ^ 57)
  linarith

end SprintLedger.Json.Numeral
