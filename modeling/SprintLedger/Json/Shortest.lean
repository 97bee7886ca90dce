import SprintLedger.Json.Double

set_option autoImplicit false

namespace SprintLedger.Json

structure Decimal where
  digits : Nat
  exponent : Int
deriving DecidableEq

namespace Decimal

def strip (d : Decimal) : Decimal :=
  if h : d.digits ≠ 0 ∧ d.digits % 10 = 0 then strip ⟨d.digits / 10, d.exponent + 1⟩ else d
termination_by d.digits
decreasing_by exact Nat.div_lt_self (Nat.pos_of_ne_zero h.1) (by decide)

-- Positional with at least one decimal from 10^-5 to below 10^16, otherwise with an exponent that
-- has a sign.
def text (d : Decimal) : List Char :=
  let digits := Nat.toDigits 10 d.digits
  let point := digits.length + d.exponent
  if 16 < point ∨ point < -4 then
    let fraction := match digits.tail with
      | [] => []
      | more => '.' :: more
    digits.take 1 ++ fraction ++
      ['e', if point - 1 < 0 then '-' else '+'] ++ Nat.toDigits 10 (point - 1).natAbs
  else if point ≤ 0 then
    ['0', '.'] ++ List.replicate (-point).toNat '0' ++ digits
  else if 0 ≤ d.exponent then
    digits ++ List.replicate d.exponent.toNat '0' ++ ['.', '0']
  else
    digits.take point.toNat ++ '.' :: digits.drop point.toNat

end Decimal

def sizeOfRatio (num den : Nat) : Int :=
  let guess : Int := (Nat.toDigits 10 num).length - (Nat.toDigits 10 den).length
  let (up, down) := power 10 guess
  if den * up ≤ num * down then guess + 1 else guess

namespace Double

def exact (x : Double) : Decimal :=
  if 0 ≤ x.exponent then ⟨x.mantissa * Nat.pow 2 x.exponent.toNat, 0⟩
  else ⟨x.mantissa * Nat.pow 5 (-x.exponent).toNat, x.exponent⟩

-- Of the multiples of `10 ^ unit` next to the absolute value one that reads back, the nearer first,
-- at a tie the even one.
def onGrid? (x : Double) (unit : Int) : Option Decimal :=
  let (num, den) := x.ratio
  let (up, down) := power 10 unit
  let below := num * down / (den * up)
  let near := roundHalfEven (num * down) (den * up)
  let far := if near = below then below + 1 else below
  ([near, far].find? fun c => ofDecimal? x.negative c unit = some x).map (⟨·, unit⟩)

-- Seventeen digits are always enough; the exact value stands behind them.
def shortest (x : Double) : Decimal :=
  let (num, den) := x.ratio
  let size := sizeOfRatio num den
  (((List.range 17).findSome? fun (n : Nat) => x.onGrid? (size - (n + 1))).getD x.exact).strip

def text (x : Double) : List Char :=
  (if x.negative then ['-'] else []) ++
    if x.mantissa = 0 then ['0', '.', '0'] else x.shortest.text

end Double

end SprintLedger.Json
