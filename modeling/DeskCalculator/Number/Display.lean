import DeskCalculator.Number.Decimal

/-!
# Numbers on the display

A result is shown in fixed point with at most ten digits after the point, without grouping and
without an exponent. A whole number below `10 ^ 15` is shown exactly; every other number is rounded
to ten places and loses the zeros at its end. Zero has no sign.

Specification: §4.5.
-/

namespace DeskCalculator.Number

/-- Digits after the point that the display has room for. -/
def displayPlaces : Nat := 10

/-- `text` without the run of `c` at its end. -/
def dropTrailing (c : Char) (text : List Char) : List Char :=
  (text.reverse.dropWhile (· == c)).reverse

/-- Whether a magnitude pattern is a whole number below `10 ^ 15`. -/
def isShortWhole (bits : Nat) : Bool :=
  units bits % 2 ^ unitExponent = 0 && units bits / 2 ^ unitExponent < 10 ^ 15

/-- The text of a double on the display. -/
def displayText (x : Float) : List Char :=
  let bits := magnitudeBits x
  if isShortWhole bits then
    signText (isNegative x && bits != 0) ++ digitsOf (units bits / 2 ^ unitExponent)
  else
    let text := dropTrailing '.' (dropTrailing '0' (fixedText displayPlaces x))
    if text = ['-', '0'] then ['0'] else text

end DeskCalculator.Number
