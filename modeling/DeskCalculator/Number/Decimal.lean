import DeskCalculator.Number.Binary64

/-!
# Decimal text of a double

`digitsOf` and `valueOf` are the two directions between a natural number and its digits.
`fixedText` writes a magnitude with a given number of places after the point, correctly rounded
from the exact binary value, a half going to the even last digit.
-/

namespace DeskCalculator.Number

/-- The decimal digits of a natural number, without superfluous zeros. -/
def digitsOf (n : Nat) : List Char :=
  Nat.toDigits 10 n

/-- The natural number that a run of decimal digits denotes; the empty run denotes zero. -/
def valueOf (digits : List Char) : Nat :=
  Nat.ofDigitChars 10 digits 0

/-- Digits denote the number they were written for. -/
@[simp] theorem valueOf_digitsOf (n : Nat) : valueOf (digitsOf n) = n :=
  Nat.ofDigitChars_ten_toDigits

/-- A number has at least one digit. -/
theorem digitsOf_ne_nil (n : Nat) : digitsOf n ≠ [] :=
  Nat.toDigits_ne_nil

/-- Only decimal digits are written. -/
theorem isDigit_of_mem_digitsOf {n : Nat} {c : Char} (h : c ∈ digitsOf n) : c.isDigit :=
  Nat.isDigit_of_mem_toDigits (by decide) (by decide) h

/-- Only zero begins with a zero. -/
theorem eq_zero_of_head?_digitsOf {n : Nat} (h : (digitsOf n).head? = some '0') : n = 0 := by
  induction n using Nat.strongRecOn with
  | ind n ih =>
    rw [digitsOf] at h
    by_cases hn : n < 10
    · have hall : ∀ n < 10, n.digitChar = '0' → n = 0 := by decide
      rw [Nat.toDigits_of_lt_base hn] at h
      exact hall n hn (Option.some.inj h)
    · have hle : 10 ≤ n := Nat.le_of_not_lt hn
      rw [Nat.toDigits_of_base_le (by decide) hle, List.head?_append,
        Option.or_of_isSome (List.isSome_head?.mpr Nat.toDigits_ne_nil)] at h
      have hzero := ih (n / 10) (by omega) h
      omega

/-- The digits of `n`, filled up with zeros on the left to at least `width` of them. -/
def paddedDigits (width n : Nat) : List Char :=
  List.replicate (width - (digitsOf n).length) '0' ++ digitsOf n

/-- Leading zeros do not change the number. -/
@[simp] theorem valueOf_paddedDigits (width n : Nat) : valueOf (paddedDigits width n) = n := by
  simp [valueOf, paddedDigits, Nat.ofDigitChars_append, digitsOf, Nat.ofDigitChars_replicate_zero,
    Nat.ofDigitChars_ten_toDigits]

/-- The whole number nearest to a magnitude times `10 ^ places`. -/
def scaledMagnitude (places bits : Nat) : Nat :=
  roundDiv (units bits * 10 ^ places) (2 ^ unitExponent)

/-- A count of `10 ^ -places` written with exactly `places` digits after the point; without a point
when `places` is zero. -/
def placesText (places n : Nat) : List Char :=
  if places = 0 then digitsOf n
  else digitsOf (n / 10 ^ places) ++ '.' :: paddedDigits places (n % 10 ^ places)

/-- The sign that stands before a number: nothing unless it is negative. -/
def signText (negative : Bool) : List Char :=
  if negative then ['-'] else []

/-- A double with exactly `places` digits after the point. A double that is no number is `NaN`, and
an infinite one is `inf` after its sign. -/
def fixedText (places : Nat) (x : Float) : List Char :=
  if infinityBits < magnitudeBits x then ['N', 'a', 'N']
  else if magnitudeBits x = infinityBits then signText (isNegative x) ++ ['i', 'n', 'f']
  else signText (isNegative x) ++ placesText places (scaledMagnitude places (magnitudeBits x))

end DeskCalculator.Number
