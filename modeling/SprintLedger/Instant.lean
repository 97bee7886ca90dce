import SprintLedger.Calendar
import SprintLedger.Text.Decimal

set_option autoImplicit false

namespace SprintLedger

-- Seconds since the start of 1970 and nanoseconds into the second. Nanoseconds from 10^9 on are in
-- the leap second that follows.
structure Instant where
  seconds : Int
  nanos : Nat
deriving DecidableEq

-- Four digits for the years 0 to 9999; others have a sign and at least four digits.
def yearText (year : Int) : List Char :=
  if 0 ≤ year ∧ year ≤ 9999 then Text.decimal 4 year.toNat
  else (if year < 0 then '-' else '+') :: Text.decimal 4 year.natAbs

namespace Instant

def date (t : Instant) : Date := .ofDays (t.seconds / 86400)

def secondOfDay (t : Instant) : Nat := (t.seconds % 86400).toNat

def clockSecond (t : Instant) : Nat :=
  t.secondOfDay % 60 + if 1000000000 ≤ t.nanos then 1 else 0

def stamp (t : Instant) : String :=
  .ofList <|
    yearText t.date.year ++ '-' :: Text.decimal 2 t.date.month ++ '-' :: Text.decimal 2 t.date.day ++
      'T' :: Text.decimal 2 (t.secondOfDay / 3600) ++
      ':' :: Text.decimal 2 (t.secondOfDay / 60 % 60) ++ ':' :: Text.decimal 2 t.clockSecond ++ ['Z']

end Instant

end SprintLedger
