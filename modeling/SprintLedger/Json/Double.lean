set_option autoImplicit false

namespace SprintLedger.Json

-- The mantissa fills its 53 bits, from 2^52 to below 2^53; only at the least exponent it may be smaller.
def IsCanonical (mantissa : Nat) (exponent : Int) : Prop :=
  mantissa < 0x20000000000000 ∧ -1074 ≤ exponent ∧ exponent ≤ 971 ∧
    (0x10000000000000 ≤ mantissa ∨ exponent = -1074)

instance (m : Nat) (q : Int) : Decidable (IsCanonical m q) := by
  unfold IsCanonical
  infer_instance

structure Double where
  negative : Bool
  mantissa : Nat
  exponent : Int
  canonical : IsCanonical mantissa exponent
deriving DecidableEq

def power (base : Nat) (exponent : Int) : Nat × Nat :=
  (Nat.pow base exponent.toNat, Nat.pow base (-exponent).toNat)

def roundHalfEven (num den : Nat) : Nat :=
  let down := num / den
  let rest := num % den
  if 2 * rest < den ∨ (2 * rest = den ∧ down % 2 = 0) then down else down + 1

def exponentOf (num den : Nat) : Int :=
  let low := max ((num.log2 : Int) - den.log2 - 53) (-1074)
  let (up, down) := power 2 low
  if 0x20000000000000 ≤ num * down / (den * up) then low + 1 else low

namespace Double

def zero (negative : Bool) : Double := ⟨negative, 0, -1074, by decide⟩

def ofRatio? (negative : Bool) (num den : Nat) : Option Double :=
  let q := exponentOf num den
  let (up, down) := power 2 q
  let m := roundHalfEven (num * down) (den * up)
  let (m, q) := if m = 0x20000000000000 then (0x10000000000000, q + 1) else (m, q)
  if h : IsCanonical m q then some ⟨negative, m, q, h⟩ else none

-- The double nearest to `digits * 10 ^ exponent`. A decimal that is far beyond the greatest double
-- or below the least is told by its size alone.
def ofDecimal? (negative : Bool) (digits : Nat) (exponent : Int) : Option Double :=
  if digits = 0 then some (zero negative)
  else
    let size := (Nat.toDigits 10 digits).length + exponent
    if 310 < size then none
    else if size < -330 then some (zero negative)
    else
      let (up, down) := power 10 exponent
      ofRatio? negative (digits * up) down

def ratio (x : Double) : Nat × Nat :=
  let (up, down) := power 2 x.exponent
  (x.mantissa * up, down)

def nearest? (negative : Bool) (num den : Nat) : Option Double :=
  if num = 0 then some (zero negative) else ofRatio? negative num den

def times? (x y : Double) : Option Double :=
  nearest? x.negative (x.ratio.1 * y.ratio.1) (x.ratio.2 * y.ratio.2)

def over? (x y : Double) : Option Double :=
  nearest? x.negative (x.ratio.1 * y.ratio.2) (x.ratio.2 * y.ratio.1)

def tenPower? (k : Nat) : Option Double := ofRatio? false (Nat.pow 10 k) 1

-- No power of ten beyond 10^308 is a double. What is divided by more goes there in steps.
def scale? (x : Double) (exponent : Int) : Option Double :=
  if exponent.natAbs ≤ 308 then
    (tenPower? exponent.natAbs).bind fun p => if 0 ≤ exponent then x.times? p else x.over? p
  else if x.mantissa = 0 then some x
  else if 0 ≤ exponent then none
  else (tenPower? 308).bind fun p => (x.over? p).bind fun y => y.scale? (exponent + 308)
termination_by exponent.natAbs
decreasing_by omega

-- What `digits * 10 ^ exponent` is read as. The digits, the power and their product or quotient are
-- each rounded, so this need not be the nearest double.
def ofParts? (negative : Bool) (digits : Nat) (exponent : Int) : Option Double :=
  (nearest? negative digits 1).bind fun x => x.scale? exponent

end Double

end SprintLedger.Json
