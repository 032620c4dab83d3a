import DeskCalculator.Number.Decimal

/-!
# Numbers in commands

Integers have an optional sign and decimal digits. A real number has an optional sign, digits with
at most one point among or around them, and an optional exponent.
-/

namespace DeskCalculator.Number

/-- The natural number that a text of decimal digits spells. -/
def readDigits? (cs : List Char) : Option Nat :=
  if cs ≠ [] ∧ cs.all Char.isDigit then some (valueOf cs) else none

/-- A sign at the beginning of a text, as whether it is a minus, and the rest. -/
def splitSign : List Char → Bool × List Char
  | '-' :: cs => (true, cs)
  | '+' :: cs => (false, cs)
  | cs => (false, cs)

/-- The integer of 64 bits with a sign that a text spells. -/
def readSigned? (cs : List Char) : Option Int := do
  let (negative, digits) := splitSign cs
  let n ← readDigits? digits
  let value : Int := if negative then -n else n
  if -2 ^ 63 ≤ value ∧ value < 2 ^ 63 then some value else none

/-- The integer of 64 bits without a sign that a text spells; a plus sign is allowed. -/
def readSize? (cs : List Char) : Option Nat := do
  let digits := if cs.head? = some '+' then cs.tail else cs
  let n ← readDigits? digits
  if n < 2 ^ 64 then some n else none

/-- The decimal exponent that a text spells, the empty text spelling none. -/
def readPower? : List Char → Option Int
  | [] => some 0
  | e :: cs =>
    if e = 'e' ∨ e = 'E' then
      let (negative, digits) := splitSign cs
      (readDigits? digits).map fun n ↦ if negative then -(n : Int) else n
    else none

/-- The double nearest to the real number that a text spells; infinite if it is too large. -/
def readReal? (cs : List Char) : Option Float := do
  let (negative, cs) := splitSign cs
  let whole := cs.takeWhile Char.isDigit
  let rest := cs.dropWhile Char.isDigit
  let afterPoint := if rest.head? = some '.' then rest.tail else []
  let fraction := afterPoint.takeWhile Char.isDigit
  let power ← readPower? (if rest.head? = some '.' then afterPoint.dropWhile Char.isDigit else rest)
  if whole = [] ∧ fraction = [] then none
  else some (ofDecimal negative (valueOf (whole ++ fraction)) (power - fraction.length))

end DeskCalculator.Number
