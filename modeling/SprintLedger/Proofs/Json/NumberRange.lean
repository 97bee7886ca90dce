import SprintLedger.Proofs.Json.Gathering
import SprintLedger.Proofs.Json.Numerals
import SprintLedger.Proofs.Json.Overflow

set_option autoImplicit false

namespace SprintLedger.Json

namespace Numeral

def InRange (n : Numeral) : Prop := Double.PartsInRange n.negative n.held.digits n.held.exponent

theorem small_in_range {n : Numeral} (small : n.value ≤ Double.surelyInRange) : n.InRange :=
  Double.small_parts_in_range n.held_word (n.held_value_le.trans small)

theorem value_below {n : Numeral} (digits : ∀ c ∈ n.whole ++ n.fraction, c.isDigit = true) (inRange : n.InRange) :
    n.value < 2 ^ (1024 : Int) + 2 ^ (973 : Int) :=
  (held_value_over digits).trans_lt (Double.parts_value_below n.held_word inRange)

theorem integral_value {n : Numeral} (integral : n.isIntegral = true) : n.value = n.decimal.digits := by
  obtain ⟨negative, whole, fraction, exponent⟩ := n
  simp only [isIntegral, Bool.and_eq_true, List.isEmpty_iff, Option.isNone_iff_eq_none] at integral
  obtain ⟨rfl, rfl⟩ := integral
  simp [value, decimal, Double.decimalValue]

theorem number_exists_iff (n : Numeral) : (∃ x, n.number? = some x) ↔ n.InRange := by
  obtain ⟨written, signed⟩ : ∃ w : Int,
      (if n.negative = true then -(n.decimal.digits : Int) else n.decimal.digits) = w := ⟨_, rfl⟩
  simp only [number?, signed]
  by_cases integer : n.isIntegral = true ∧ IsWord written ∧ ¬(n.negative = true ∧ n.decimal.digits = 0)
  · rw [dif_pos integer]
    obtain ⟨integral, ⟨_, _⟩, _⟩ := integer
    have word : n.decimal.digits < 2 ^ 64 := by
      split at signed <;> omega
    refine iff_of_true ⟨_, rfl⟩ (small_in_range ?_)
    rw [integral_value integral]
    exact Double.word_surely word
  · rw [dif_neg integer, InRange, ← Double.of_parts_exists_iff n.held_word]
    simp

end Numeral

theorem numeral_unique {m n : Numeral} {cs : List Char} (first : NumeralSpells m cs) (second : NumeralSpells n cs) :
    m = n := by
  have read : (numeral .truncated).run (cs ++ []) = .ok (m, []) := numeral_complete first nofun
  have again : (numeral .truncated).run (cs ++ []) = .ok (n, []) := numeral_complete second nofun
  rw [again] at read
  simp only [Except.ok.injEq, Prod.mk.injEq, and_true] at read
  exact read.symm

theorem number_spelled_iff {n : Numeral} {cs : List Char} (spelled : NumeralSpells n cs) :
    (∃ x, NumberSpells x cs) ↔ n.InRange := by
  rw [← Numeral.number_exists_iff]
  constructor
  · rintro ⟨x, m, other, valued⟩
    obtain rfl := numeral_unique spelled other
    exact ⟨x, valued⟩
  · rintro ⟨x, valued⟩
    exact ⟨x, n, spelled, valued⟩

-- Only among the doubles next to 2^1024 does it matter how the number is written.
theorem spelled_bounds {n : Numeral} {cs : List Char} (spelled : NumeralSpells n cs) :
    (n.value ≤ Double.surelyInRange → n.InRange) ∧ (n.InRange → n.value < 2 ^ (1024 : Int) + 2 ^ (973 : Int)) := by
  obtain ⟨_, whole, fraction, _⟩ := spelled
  exact ⟨Numeral.small_in_range, Numeral.value_below (List.forall_mem_append.2 ⟨whole.1.2, fraction⟩)⟩

end SprintLedger.Json
