import SprintLedger.Text.Blank
import SprintLedger.Text.Decimal

set_option autoImplicit false

namespace SprintLedger

structure SprintNumber where
  value : Nat
  inRange : value < 0x100000000
deriving DecidableEq

namespace SprintNumber

def digits (n : SprintNumber) : List Char := Text.decimal 3 n.value

def key (n : SprintNumber) : String := .ofList n.digits

def documentName (n : SprintNumber) : String := "SPRINT-" ++ n.key ++ ".md"

def ofDigits? (cs : List Char) : Option SprintNumber :=
  match Text.ofDecimal? cs with
  | some n => if h : n < 0x100000000 then some ⟨n, h⟩ else none
  | none => none

-- A number as it is typed: blanks around it, a plus in front and leading zeros do not matter.
def ofText? (text : String) : Option SprintNumber :=
  match Text.trim text.toList with
  | '+' :: cs => ofDigits? cs
  | cs => ofDigits? cs

end SprintNumber

end SprintLedger
