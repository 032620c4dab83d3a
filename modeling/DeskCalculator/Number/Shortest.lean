import DeskCalculator.Number.Decimal

/-!
# The fewest digits that read back

A double is a whole number of `10 ^ -1074`, so all its decimal digits are those of one natural
number. The shortest text drops as many of them as it can: of the two neighbours on each coarser
grid it takes one that still reads back as the same double, the nearer of two, and a `Tie` decides
between two that are equally near. Dropping nothing is the last grid, so the search always ends.
-/

namespace DeskCalculator.Number

/-- How the shortest text chooses between two candidates that are equally near. -/
inductive Tie where
  /-- The candidate whose last digit is even. -/
  | even
  /-- The greater candidate. -/
  | up
  deriving Repr, DecidableEq

/-- A magnitude in units of `10 ^ -1074`: all decimal digits of a double. -/
def exactDigits (bits : Nat) : Nat :=
  units bits * 5 ^ unitExponent

/-- The decimal exponent that goes with `exactDigits`, after `dropped` digits are cut off. -/
def droppedExponent (dropped : Nat) : Int :=
  (dropped : Int) - unitExponent

/-- Whether `digits` on the grid of `dropped` cut digits is read as the magnitude `bits`. -/
def readsBack (bits digits dropped : Nat) : Bool :=
  decimalBits digits (droppedExponent dropped) = bits

/-- Of two neighbours around `exact` that both read back, the one to write. -/
def nearerOf (tie : Tie) (exact lower dropped : Nat) : Nat :=
  match compare (2 * (exact % 10 ^ dropped)) (10 ^ dropped) with
  | .lt => lower
  | .gt => lower + 1
  | .eq =>
    match tie with
    | .even => lower + lower % 2
    | .up => lower + 1

/-- The digits on the grid of `dropped` cut digits that read back, if there are any. -/
def candidate? (tie : Tie) (bits exact dropped : Nat) : Option Nat :=
  let lower := exact / 10 ^ dropped
  match readsBack bits lower dropped, readsBack bits (lower + 1) dropped with
  | true, true => some (nearerOf tie exact lower dropped)
  | true, false => some lower
  | false, true => some (lower + 1)
  | false, false => none

/-- The digits on the coarsest grid, from `dropped` cut digits down to none, that read back. -/
def searchDigits (tie : Tie) (bits exact : Nat) : (dropped : Nat) → Nat × Int
  | 0 => (exact, droppedExponent 0)
  | dropped + 1 =>
    match candidate? tie bits exact (dropped + 1) with
    | some digits => (digits, droppedExponent (dropped + 1))
    | none => searchDigits tie bits exact dropped

/-- The shortest digits of a finite magnitude, and the exponent of ten that scales them. -/
def shortestDigits (tie : Tie) (bits : Nat) : Nat × Int :=
  let exact := exactDigits bits
  searchDigits tie bits exact ((digitsOf exact).length - 1)

/-- Digits and exponent with the zeros at the end of the digits moved into the exponent, as text:
`1200 * 10 ^ e` becomes `12` and `e + 2`. -/
def significantDigits (digits : Nat) (exponent : Int) : List Char × Int :=
  let all := digitsOf digits
  let kept := (all.reverse.dropWhile (· == '0')).reverse
  (kept, exponent + (all.length - kept.length : Nat))

/-- Significant digits written without an exponent and with at least one digit on each side of the
point. -/
def positionalText (kept : List Char) (exponent : Int) : List Char :=
  let whole := (kept.length : Int) + exponent
  if 0 ≤ exponent then kept ++ List.replicate exponent.toNat '0' ++ ['.', '0']
  else if 0 < whole then kept.take whole.toNat ++ '.' :: kept.drop whole.toNat
  else ['0', '.'] ++ List.replicate (-whole).toNat '0' ++ kept

/-- Significant digits written with one digit before the point and a signed exponent. -/
def exponentText (kept : List Char) (exponent : Int) : List Char :=
  let power := (kept.length : Int) + exponent - 1
  let mantissa := match kept with
    | d :: [] => [d]
    | d :: ds => d :: '.' :: ds
    | [] => ['0']
  mantissa ++ 'e' :: (if power < 0 then '-' else '+') :: digitsOf power.natAbs

/-- The shortest text of a finite magnitude without an exponent. -/
def plainMagnitude (tie : Tie) (bits : Nat) : List Char :=
  if bits = 0 then ['0', '.', '0']
  else
    let (digits, exponent) := shortestDigits tie bits
    let (kept, exponent) := significantDigits digits exponent
    positionalText kept exponent

/-- The shortest text of a finite magnitude, with an exponent outside `1e-5 .. 1e16`. -/
def scaledMagnitudeText (tie : Tie) (bits : Nat) : List Char :=
  if bits = 0 then ['0', '.', '0']
  else
    let (digits, exponent) := shortestDigits tie bits
    let (kept, exponent) := significantDigits digits exponent
    let power := (kept.length : Int) + exponent - 1
    if -5 ≤ power ∧ power ≤ 15 then positionalText kept exponent else exponentText kept exponent

end DeskCalculator.Number
