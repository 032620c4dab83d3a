import DeskCalculator.Number.Decimal

/-!
# Clock readings

A session learns the time only from readings that are handed to it: the milliseconds since 1970,
from which ids are made, and the local calendar day and minute, which are written down.
-/

namespace DeskCalculator.History

/-- What the clock shows at some moment. -/
structure Clock where
  /-- Milliseconds since the beginning of 1970. -/
  millis : Int
  year : Nat
  month : Nat
  day : Nat
  hour : Nat
  minute : Nat
  deriving Repr, DecidableEq

namespace Clock

/-- A year with at least four digits, and with a sign if it has more. -/
def yearText (year : Nat) : List Char :=
  if year < 10000 then Number.paddedDigits 4 year else '+' :: Number.digitsOf year

/-- A calendar day as `YYYY-MM-DD`. -/
def dayText (year month day : Nat) : String :=
  String.ofList (yearText year ++ '-' :: Number.paddedDigits 2 month ++
    '-' :: Number.paddedDigits 2 day)

/-- The day of a reading as `YYYY-MM-DD`. -/
def date (c : Clock) : String :=
  dayText c.year c.month c.day

/-- The time of a reading as `HH:MM`. -/
def time (c : Clock) : String :=
  String.ofList (Number.paddedDigits 2 c.hour ++ ':' :: Number.paddedDigits 2 c.minute)

end Clock

end DeskCalculator.History
