import SprintLedger.Proofs.Text.Blanks
import SprintLedger.Sprint.Number
import SprintLedger.Text.Digit

set_option autoImplicit false

namespace SprintLedger

namespace Text

theorem decimal_digit {width n : Nat} {c : Char} (member : c ∈ decimal width n) : c.isDigit = true := by
  rcases List.mem_append.1 member with zero | digit
  · rw [List.eq_of_mem_replicate zero]
    rfl
  · exact Nat.isDigit_of_mem_toDigits (by decide) (by decide) digit

theorem decimal_ne_nil (width n : Nat) : decimal width n ≠ [] := by
  intro empty
  exact Nat.toDigits_ne_nil (List.append_eq_nil_iff.1 empty).2

theorem of_decimal_iff {cs : List Char} {n : Nat} :
    ofDecimal? cs = some n ↔ cs ≠ [] ∧ (∀ c ∈ cs, c.isDigit = true) ∧ Nat.ofDigitChars 10 cs 0 = n := by
  unfold ofDecimal?
  cases cs with
  | nil => simp
  | cons c cs => simp [and_assoc]

theorem decimal_solid {c : Char} (decimal : isDecimal c = true) : isBlank c = false :=
  ranges_apart (by decide) decimal

theorem digit_decimal {c : Char} (digit : c.isDigit = true) : isDecimal c = true :=
  in_ranges_iff.2 ⟨(0x30, 0x39), by decide, Char.isDigit_iff_toNat.1 digit⟩

theorem decimal_text_solid (width n : Nat) : Solid (decimal width n) := by
  intro c member
  exact decimal_solid (digit_decimal (decimal_digit member))

end Text

namespace SprintNumber

theorem value_injective {n m : SprintNumber} (same : n.value = m.value) : n = m := by
  cases n
  cases m
  cases same
  rfl

theorem of_digits_iff {cs : List Char} {n : SprintNumber} :
    ofDigits? cs = some n ↔
      cs ≠ [] ∧ (∀ c ∈ cs, c.isDigit = true) ∧ Nat.ofDigitChars 10 cs 0 = n.value := by
  rw [← Text.of_decimal_iff]
  unfold ofDigits?
  cases Text.ofDecimal? cs with
  | none => simp
  | some value =>
    obtain ⟨number, inRange⟩ := n
    dsimp only
    by_cases small : value < 0x100000000
    · simp [small]
    · rw [dif_neg small]
      constructor
      · nofun
      · rintro ⟨⟩
        exact absurd inRange small

theorem of_text_solid {cs : List Char} (solid : Text.Solid cs) (unsigned : cs.head? ≠ some '+') :
    ofText? (.ofList cs) = ofDigits? cs := by
  unfold ofText?
  rw [String.toList_ofList, Text.trim_solid solid]
  split
  · exact absurd rfl unsigned
  · rfl

-- Digits of other scripts are no blanks either, so they reach the number reader and are refused there.
theorem of_text_decimals {ds : List Char} (decimals : ∀ c ∈ ds, Text.isDecimal c = true) :
    ofText? (.ofList ds) = ofDigits? ds := by
  refine of_text_solid (fun c member => Text.decimal_solid (decimals c member)) ?_
  intro plus
  have sign := decimals '+' (List.mem_of_mem_head? plus)
  revert sign
  decide

theorem digits_length (n : SprintNumber) : n.digits.length ≤ 10 := by
  have short : (Nat.toDigits 10 n.value).length ≤ 10 :=
    (Nat.length_toDigits_le_iff (by decide) (by decide)).2 (Nat.lt_trans n.inRange (by decide))
  rw [digits, Text.decimal, List.length_append, List.length_replicate]
  omega

theorem key_list (n : SprintNumber) : n.key.toList = n.digits := String.toList_ofList

theorem key_read (n : SprintNumber) : ofText? n.key = some n := by
  have digits : ∀ c ∈ n.digits, c.isDigit = true := fun c => Text.decimal_digit
  rw [key, of_text_decimals fun c member => Text.digit_decimal (digits c member)]
  exact of_digits_iff.2 ⟨Text.decimal_ne_nil _ _, digits, Text.of_digits_decimal 3 n.value⟩

theorem key_injective {n m : SprintNumber} (same : n.key = m.key) : n = m := by
  have read := n.key_read
  rw [same, key_read] at read
  exact (Option.some.inj read).symm

end SprintNumber

end SprintLedger
