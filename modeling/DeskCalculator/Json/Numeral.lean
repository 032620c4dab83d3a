import DeskCalculator.Json.Value

/-!
# Reading JSON numbers

A numeral has an optional minus sign, digits without a superfluous leading zero, and optionally a
point with digits and an exponent. Without point and exponent it is an integer if it fits 64 bits;
`-0` and everything else is a double. A double is read from as many digits as fit 64 bits: they
are rounded to a double and scaled by a power of ten, so the result may miss the nearest double by
its last bit.
-/

namespace DeskCalculator.Json

/-- The parts of a numeral. -/
structure Numeral where
  negative : Bool
  /-- The digits before the point. -/
  whole : List Char
  /-- The digits after the point, if there is one. -/
  fraction : Option (List Char)
  /-- The sign and digits of the exponent, if there is one. -/
  exponent : Option (Bool × List Char)
  deriving Repr, DecidableEq

namespace Numeral

/-- The exponent that a text without its `e` spells. -/
def readExponent? (cs : List Char) : Option (Bool × List Char) :=
  let (negative, digits) := match cs with
    | '-' :: ds => (true, ds)
    | '+' :: ds => (false, ds)
    | ds => (false, ds)
  if digits ≠ [] ∧ digits.all Char.isDigit then some (negative, digits) else none

/-- The parts of a numeral after its digits before the point. -/
def readTail? (negative : Bool) (whole cs : List Char) : Option Numeral :=
  match cs with
  | [] => some ⟨negative, whole, none, none⟩
  | '.' :: cs =>
    let fraction := cs.takeWhile Char.isDigit
    if fraction = [] then none
    else
      match cs.dropWhile Char.isDigit with
      | [] => some ⟨negative, whole, some fraction, none⟩
      | e :: cs =>
        if e = 'e' ∨ e = 'E' then
          (readExponent? cs).map fun x ↦ ⟨negative, whole, some fraction, some x⟩
        else none
  | e :: cs =>
    if e = 'e' ∨ e = 'E' then (readExponent? cs).map fun x ↦ ⟨negative, whole, none, some x⟩
    else none

/-- The parts of the numeral that a text spells. -/
def read? (cs : List Char) : Option Numeral :=
  let negative := cs.head? = some '-'
  let cs := if negative then cs.tail else cs
  let whole := cs.takeWhile Char.isDigit
  if whole = [] ∨ (whole.head? = some '0' ∧ whole.length ≠ 1) then none
  else readTail? negative whole (cs.dropWhile Char.isDigit)

/-- Reads digits after `n` as long as the number fits 64 bits; also gives the digits left over. -/
def takeDigits (n : Nat) : List Char → Nat × List Char
  | [] => (n, [])
  | d :: ds =>
    let next := 10 * n + (d.toNat - '0'.toNat)
    if next < 2 ^ 64 then takeDigits next ds else (n, d :: ds)

/-- The greatest power of ten that a number is scaled by at once. -/
def maxPower : Nat := 308

/-- A double divided by `10 ^ power`, at most `10 ^ 308` at a time. -/
def scaleDown (x : Float) (power : Nat) : Float :=
  if power ≤ maxPower then x / Number.ofDecimal false 1 power
  else if x == 0 then x
  else scaleDown (x / Number.ofDecimal false 1 maxPower) (power - maxPower)
termination_by power
decreasing_by simp only [maxPower] at *; omega

/-- A double times `10 ^ power`, if that is in range. -/
def scaleUp? (x : Float) (power : Nat) : Option Float :=
  if x == 0 then some x
  else if maxPower < power then none
  else
    let y := x * Number.ofDecimal false 1 power
    if y.isInf then none else some y

/-- The double of a numeral, if it is in range. -/
def float? (n : Numeral) : Option Float :=
  let (digits, spare) := takeDigits 0 n.whole
  let fraction := n.fraction.getD []
  let (digits, unused) := takeDigits digits fraction
  let places := fraction.length - unused.length
  let power : Int := match n.exponent with
    | some (true, ds) => -(Number.valueOf ds : Int)
    | some (false, ds) => Number.valueOf ds
    | none => 0
  let scale := power + spare.length - places
  let start := Number.ofDecimal false digits 0
  let scaled := if 0 ≤ scale then scaleUp? start scale.toNat else some (scaleDown start (-scale).toNat)
  scaled.map fun x ↦ if n.negative then -x else x

/-- The value of a numeral. -/
def value (n : Numeral) : Json :=
  let magnitude := Number.valueOf n.whole
  if n.fraction.isNone && n.exponent.isNone && !n.negative && magnitude < 2 ^ 64 then
    .integer magnitude
  else if n.fraction.isNone && n.exponent.isNone && n.negative && 0 < magnitude &&
      magnitude ≤ 2 ^ 63 then
    .integer (-(magnitude : Int))
  else
    match n.float? with
    | some x => .float x
    | none => .unreadable

end Numeral

end DeskCalculator.Json
