import SprintLedger.Json.Shortest

set_option autoImplicit false

namespace SprintLedger.Json

def IsWord (n : Int) : Prop := -0x8000000000000000 ≤ n ∧ n < 0x10000000000000000

instance (n : Int) : Decidable (IsWord n) := by
  unfold IsWord
  infer_instance

inductive Number where
  | integer (value : Int) (inRange : IsWord value)
  | double (value : Double)
deriving DecidableEq

-- A number as it is written: `fraction` holds the digits behind the point, and `exponent` is absent
-- where none is written.
structure Numeral where
  negative : Bool
  whole : List Char
  fraction : List Char
  exponent : Option Int

namespace Numeral

def decimal (n : Numeral) : Decimal :=
  ⟨Nat.ofDigitChars 10 (n.whole ++ n.fraction) 0, n.exponent.getD 0 - n.fraction.length⟩

def isIntegral (n : Numeral) : Bool := n.fraction.isEmpty && n.exponent.isNone

-- The digits that fit into 64 bits behind those already taken, and how many are left from the first one
-- on that does not.
def gather (taken : Nat) : List Char → Nat × Nat
  | [] => (taken, 0)
  | c :: cs =>
    let next := 10 * taken + (c.toNat - '0'.toNat)
    if next < 0x10000000000000000 then gather next cs else (taken, cs.length + 1)

def held (n : Numeral) : Decimal :=
  let (before, left) := gather 0 n.whole
  let (digits, unread) := gather before n.fraction
  ⟨digits, n.exponent.getD 0 + left + unread - n.fraction.length⟩

-- Nothing where the double overflows. The integer zero has no sign, so `-0` is a double.
def number? (n : Numeral) : Option Number :=
  let size := n.decimal.digits
  let value : Int := if n.negative then -size else size
  if h : n.isIntegral ∧ IsWord value ∧ ¬(n.negative ∧ size = 0) then some (.integer value h.2.1)
  else (Double.ofParts? n.negative n.held.digits n.held.exponent).map .double

end Numeral

def Number.text : Number → List Char
  | .integer n _ => (if n < 0 then ['-'] else []) ++ Nat.toDigits 10 n.natAbs
  | .double x => x.text

end SprintLedger.Json
