set_option autoImplicit false

namespace SprintLedger.Text

def decimal (width n : Nat) : List Char :=
  let digits := Nat.toDigits 10 n
  List.replicate (width - digits.length) '0' ++ digits

def ofDecimal? (cs : List Char) : Option Nat :=
  if !cs.isEmpty && cs.all Char.isDigit then some (Nat.ofDigitChars 10 cs 0) else none

theorem of_digits_decimal (width n : Nat) : Nat.ofDigitChars 10 (decimal width n) 0 = n := by
  have zeros (k : Nat) (cs : List Char) :
      Nat.ofDigitChars 10 (List.replicate k '0' ++ cs) 0 = Nat.ofDigitChars 10 cs 0 := by
    induction k with
    | zero => rfl
    | succ k ih => simpa [Nat.ofDigitChars, List.replicate_succ] using ih
  rw [decimal, zeros, Nat.ofDigitChars_toDigits (by decide) (by decide)]

end SprintLedger.Text
