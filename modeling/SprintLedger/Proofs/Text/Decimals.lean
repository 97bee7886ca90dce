import Mathlib.Algebra.GroupWithZero.Nat
import SprintLedger.Proofs.Sprint.Numbers

set_option autoImplicit false

namespace SprintLedger.Text

theorem append_less {cs ds : List Char} (same : cs.length = ds.length) (less : cs < ds) (xs ys : List Char) :
    cs ++ xs < ds ++ ys := by
  induction cs generalizing ds with
  | nil =>
    rw [List.length_eq_zero_iff.1 same.symm] at less
    cases less
  | cons c cs ih =>
    cases ds with
    | nil => cases same
    | cons d ds =>
      rw [List.cons_append, List.cons_append, List.cons_lt_cons_iff]
      rcases List.cons_lt_cons_iff.1 less with first | ⟨equal, rest⟩
      · exact .inl first
      · exact .inr ⟨equal, ih (Nat.succ.inj same) rest⟩

theorem digits_cons (c : Char) (cs : List Char) :
    Nat.ofDigitChars 10 (c :: cs) 0 = 10 ^ cs.length * (c.toNat - 48) + Nat.ofDigitChars 10 cs 0 := by
  rw [Nat.ofDigitChars_cons, Nat.ofDigitChars_eq_ofDigitChars_zero, Nat.mul_zero, Nat.zero_add]
  rfl

theorem digit_value {c : Char} (digit : c.isDigit = true) : 48 ≤ c.toNat ∧ c.toNat ≤ 57 :=
  Char.isDigit_iff_toNat.1 digit

theorem digits_below {cs : List Char} (digits : ∀ c ∈ cs, c.isDigit = true) :
    Nat.ofDigitChars 10 cs 0 < 10 ^ cs.length := by
  induction cs with
  | nil => decide
  | cons c cs ih =>
    obtain ⟨first, rest⟩ := List.forall_mem_cons.1 digits
    have value := digit_value first
    have below := ih rest
    have head : 10 ^ cs.length * (c.toNat - 48) ≤ 10 ^ cs.length * 9 := Nat.mul_le_mul_left _ (by omega)
    rw [digits_cons, List.length_cons, Nat.pow_succ]
    omega

-- The first digit decides unless the two are the same.
theorem leading_less {a b p r s : Nat} (low : r < p) (low' : s < p) :
    p * a + r < p * b + s ↔ a < b ∨ (a = b ∧ r < s) := by
  constructor
  · intro less
    rcases Nat.lt_trichotomy a b with smaller | rfl | greater
    · exact .inl smaller
    · exact .inr ⟨rfl, Nat.lt_of_add_lt_add_left less⟩
    · have step : p * (b + 1) ≤ p * a := Nat.mul_le_mul_left p greater
      rw [Nat.mul_succ] at step
      omega
  · rintro (smaller | ⟨rfl, less⟩)
    · have step : p * (a + 1) ≤ p * b := Nat.mul_le_mul_left p smaller
      rw [Nat.mul_succ] at step
      omega
    · exact Nat.add_lt_add_left less _

theorem char_less_iff {c d : Char} : c < d ↔ c.toNat < d.toNat := Iff.rfl

theorem digits_less_iff {cs ds : List Char} (same : cs.length = ds.length) (digits : ∀ c ∈ cs, c.isDigit = true)
    (digits' : ∀ d ∈ ds, d.isDigit = true) :
    cs < ds ↔ Nat.ofDigitChars 10 cs 0 < Nat.ofDigitChars 10 ds 0 := by
  induction cs generalizing ds with
  | nil =>
    rw [List.length_eq_zero_iff.1 same.symm]
    simp
  | cons c cs ih =>
    cases ds with
    | nil => cases same
    | cons d ds =>
      obtain ⟨first, rest⟩ := List.forall_mem_cons.1 digits
      obtain ⟨first', rest'⟩ := List.forall_mem_cons.1 digits'
      have length : cs.length = ds.length := Nat.succ.inj same
      have value := digit_value first
      have value' := digit_value first'
      have equal : c = d ↔ c.toNat - 48 = d.toNat - 48 := by
        rw [← Char.toNat_inj]
        omega
      have order : c < d ↔ c.toNat - 48 < d.toNat - 48 := by
        rw [char_less_iff]
        omega
      rw [List.cons_lt_cons_iff, digits_cons, digits_cons, ← length,
        leading_less (digits_below rest) (length ▸ digits_below rest'), ih length rest rest', order, equal]

theorem decimal_length {width n : Nat} (positive : 0 < width) (fits : n < 10 ^ width) :
    (decimal width n).length = width := by
  have short : (Nat.toDigits 10 n).length ≤ width := (Nat.length_toDigits_le_iff (by decide) positive).2 fits
  rw [decimal, List.length_append, List.length_replicate]
  omega

-- Numbers of one width with a mark behind each are compared number by number.
theorem decimal_append_not_less {width n m : Nat} {mark : Char} {xs ys : List Char} (positive : 0 < width)
    (fits : n < 10 ^ width) (fits' : m < 10 ^ width) (order : n < m ∨ (n = m ∧ ¬ys < xs)) :
    ¬decimal width m ++ mark :: ys < decimal width n ++ mark :: xs := by
  rcases order with less | ⟨rfl, rest⟩
  · have same : (decimal width n).length = (decimal width m).length := by
      rw [decimal_length positive fits, decimal_length positive fits']
    refine List.lt_asymm (append_less same ?_ _ _)
    rw [digits_less_iff same (fun c => decimal_digit) fun d => decimal_digit, of_digits_decimal,
      of_digits_decimal]
    exact less
  · exact List.append_left_le (List.cons_le_cons_iff.2 (.inr ⟨rfl, rest⟩))

end SprintLedger.Text
