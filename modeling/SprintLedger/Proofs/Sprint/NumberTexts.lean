import SprintLedger.Failure
import SprintLedger.Proofs.Sprint.Numbers

set_option autoImplicit false

namespace SprintLedger.SprintNumber

-- A plus may stand in front, and blanks around it.
def Denotes (text : String) (value : Nat) : Prop :=
  ∃ before sign digits after, Text.AllBlank before ∧ (sign = [] ∨ sign = ['+']) ∧ digits ≠ [] ∧
    (∀ c ∈ digits, c.isDigit = true) ∧ Nat.ofDigitChars 10 digits 0 = value ∧ Text.AllBlank after ∧
    text.toList = before ++ (sign ++ digits ++ after)

theorem digit_solid {c : Char} (digit : c.isDigit = true) : Text.isBlank c = false :=
  Text.decimal_solid (Text.digit_decimal digit)

theorem signed_solid {sign digits : List Char} (signed : sign = [] ∨ sign = ['+'])
    (all : ∀ c ∈ digits, c.isDigit = true) : Text.Solid (sign ++ digits) := by
  intro c member
  rcases List.mem_append.1 member with inSign | inDigits
  · rcases signed with rfl | rfl
    · cases inSign
    · rw [List.mem_singleton.1 inSign]
      decide
  · exact digit_solid (all c inDigits)

def Signed (core : List Char) (value : Nat) : Prop :=
  ∃ sign digits, (sign = [] ∨ sign = ['+']) ∧ digits ≠ [] ∧ (∀ c ∈ digits, c.isDigit = true) ∧
    Nat.ofDigitChars 10 digits 0 = value ∧ core = sign ++ digits

theorem denotes_iff {text : String} {value : Nat} : Denotes text value ↔ Signed (Text.trim text.toList) value := by
  constructor
  · rintro ⟨before, sign, digits, after, blank, signed, present, all, denoted, blank', split⟩
    refine ⟨sign, digits, signed, present, all, denoted, ?_⟩
    rw [split, Text.trim_surrounded blank (signed_solid signed all) blank']
  · rintro ⟨sign, digits, signed, present, all, denoted, core⟩
    obtain ⟨before, after, blank, blank', split⟩ := Text.trim_split text.toList
    rw [core] at split
    exact ⟨before, sign, digits, after, blank, signed, present, all, denoted, blank', split⟩

theorem digits_unsigned {digits : List Char} (all : ∀ c ∈ digits, c.isDigit = true) : digits.head? ≠ some '+' := by
  intro plus
  have digit := all '+' (List.mem_of_mem_head? plus)
  revert digit
  decide

theorem signed_plus {cs : List Char} {value : Nat} : Signed ('+' :: cs) value ↔
    cs ≠ [] ∧ (∀ c ∈ cs, c.isDigit = true) ∧ Nat.ofDigitChars 10 cs 0 = value := by
  constructor
  · rintro ⟨sign, digits, rfl | rfl, present, all, denoted, core⟩
    · rw [List.nil_append] at core
      exact absurd (core ▸ rfl) (digits_unsigned all)
    · obtain rfl := (List.cons.inj core).2
      exact ⟨present, all, denoted⟩
  · rintro ⟨present, all, denoted⟩
    exact ⟨['+'], cs, .inr rfl, present, all, denoted, rfl⟩

theorem signed_bare {cs : List Char} {value : Nat} (unsigned : cs.head? ≠ some '+') : Signed cs value ↔
    cs ≠ [] ∧ (∀ c ∈ cs, c.isDigit = true) ∧ Nat.ofDigitChars 10 cs 0 = value := by
  constructor
  · rintro ⟨sign, digits, rfl | rfl, present, all, denoted, rfl⟩
    · exact ⟨present, all, denoted⟩
    · exact absurd rfl unsigned
  · rintro ⟨present, all, denoted⟩
    exact ⟨[], cs, .inl rfl, present, all, denoted, rfl⟩

theorem of_text_iff {text : String} {n : SprintNumber} : ofText? text = some n ↔ Denotes text n.value := by
  rw [denotes_iff, ofText?]
  split
  · rename_i cs core
    rw [core, signed_plus, of_digits_iff]
  · rename_i unsigned
    rw [of_digits_iff, signed_bare fun plus => ?_]
    obtain ⟨cs, core⟩ := List.head?_eq_some_iff.1 plus
    exact unsigned cs core

theorem denotes_unique {text : String} {v w : Nat} (first : Denotes text v) (second : Denotes text w) : v = w := by
  rw [denotes_iff] at first second
  by_cases plus : (Text.trim text.toList).head? = some '+'
  · obtain ⟨cs, core⟩ := List.head?_eq_some_iff.1 plus
    rw [core, signed_plus] at first second
    exact first.2.2.symm.trans second.2.2
  · rw [signed_bare plus] at first second
    exact first.2.2.symm.trans second.2.2

theorem of_text_ok_iff {text : String} {n : SprintNumber} : ofText text = .ok n ↔ Denotes text n.value := by
  rw [← of_text_iff, ofText]
  cases ofText? text <;> simp

-- A number that is too great is refused as a text without a number is.
theorem of_text_refused {text : String} (none : ∀ v ≤ 4294967295, ¬Denotes text v) :
    ofText text = .error (.invalidNumber text) := by
  cases read : ofText? text with
  | none => rw [ofText, read]
  | some n =>
    have small := n.inRange
    exact absurd (of_text_iff.1 read) (none n.value (by omega))

def pushDigit? (n : SprintNumber) (c : Char) : Option SprintNumber :=
  if c.isDigit then
    if h : 10 * n.value + (c.toNat - 48) < 0x100000000 then some ⟨_, h⟩ else none
  else none

theorem push_digit_iff {n m : SprintNumber} {c : Char} :
    n.pushDigit? c = some m ↔ c.isDigit = true ∧ 10 * n.value + (c.toNat - 48) = m.value := by
  unfold pushDigit?
  by_cases digit : c.isDigit = true
  · rw [if_pos digit]
    by_cases small : 10 * n.value + (c.toNat - 48) < 0x100000000
    · rw [dif_pos small]
      refine ⟨?_, fun same => congrArg some (value_injective same.2)⟩
      rintro ⟨⟩
      exact ⟨digit, rfl⟩
    · rw [dif_neg small]
      refine ⟨nofun, fun same => ?_⟩
      exact absurd m.inRange (same.2 ▸ small)
  · rw [if_neg digit]
    exact iff_of_false nofun fun same => digit same.1

theorem digits_grow (cs : List Char) (start : Nat) : start ≤ Nat.ofDigitChars 10 cs start := by
  rw [Nat.ofDigitChars_eq_ofDigitChars_zero]
  have power : 0 < 10 ^ cs.length := Nat.pow_pos (by decide)
  exact Nat.le_trans (Nat.le_mul_of_pos_left start power) (Nat.le_add_right _ _)

theorem push_digits_iff {n m : SprintNumber} {cs : List Char} :
    cs.foldlM pushDigit? n = some m ↔ (∀ c ∈ cs, c.isDigit = true) ∧ Nat.ofDigitChars 10 cs n.value = m.value := by
  induction cs generalizing n with
  | nil =>
    rw [List.foldlM_nil]
    refine ⟨?_, fun same => congrArg some (value_injective same.2)⟩
    rintro ⟨⟩
    exact ⟨nofun, rfl⟩
  | cons c cs ih =>
    rw [List.foldlM_cons, Option.bind_eq_bind, Option.bind_eq_some_iff, List.forall_mem_cons, Nat.ofDigitChars_cons]
    simp only [push_digit_iff, ih]
    constructor
    · rintro ⟨k, ⟨digit, pushed⟩, rest, denoted⟩
      exact ⟨⟨digit, rest⟩, pushed ▸ denoted⟩
    · rintro ⟨⟨digit, rest⟩, denoted⟩
      have grown : 10 * n.value + (c.toNat - 48) ≤ m.value := Nat.le_trans (digits_grow cs _) (Nat.le_of_eq denoted)
      have small := m.inRange
      exact ⟨⟨10 * n.value + (c.toNat - 48), by omega⟩, ⟨digit, rfl⟩, rest, denoted⟩

-- A number that leaves the range with one digit does not come back into it with the next ones.
theorem of_digits_pushed (c : Char) (cs : List Char) :
    ofDigits? (c :: cs) = (c :: cs).foldlM pushDigit? ⟨0, by decide⟩ := by
  apply Option.ext
  intro n
  rw [of_digits_iff, push_digits_iff]
  simp

end SprintLedger.SprintNumber
