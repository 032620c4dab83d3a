import DeskCalculator.Number.Rounding

/-!
# Doubles as whole multiples of the smallest one

Every finite double is a sign and a whole number of units of `2 ^ -1074`. The bit pattern of the
magnitude counts the doubles in order, so `units` rises with the pattern and `floorBits` inverts it
downwards. Reading a quotient is then one comparison against the middle of two neighbours.
-/

namespace DeskCalculator

/-- Powers are those of the core library, also beside monoids with powers of their own. -/
@[default_instance high + 1]
scoped instance corePow {α : Type} [NatPow α] : Pow α Nat := instPowNat

end DeskCalculator

namespace DeskCalculator.Number

/-- The power of two that one unit of a double's magnitude is divided by. -/
def unitExponent : Nat := 1074

/-- The magnitude pattern of infinity; smaller patterns are finite. -/
def infinityBits : Nat := 0x7FF0000000000000

/-- The bit pattern of a double without its sign. -/
def magnitudeBits (x : Float) : Nat :=
  x.toBits.toNat % 2 ^ 63

/-- The sign bit of a double. -/
def isNegative (x : Float) : Bool :=
  2 ^ 63 ≤ x.toBits.toNat

/-- The double of a sign and a magnitude pattern. -/
def ofMagnitude (negative : Bool) (bits : Nat) : Float :=
  Float.ofBits (UInt64.ofNat (if negative then bits + 2 ^ 63 else bits))

/-- The value of a magnitude pattern in units of `2 ^ -1074`. -/
def units (bits : Nat) : Nat :=
  if bits < 2 ^ 53 then bits
  else (2 ^ 52 + bits % 2 ^ 52) * 2 ^ (bits / 2 ^ 52 - 1)

/-- The greatest magnitude pattern whose value is at most `u` units. -/
def floorBits (u : Nat) : Nat :=
  (u.log2 - 52) * 2 ^ 52 + u >>> (u.log2 - 52)

/-- The magnitude pattern nearest to `n / d`, a tie going to the even pattern. -/
def nearestBits (n d : Nat) : Nat :=
  let scaled := n * 2 ^ unitExponent
  let lower := floorBits (scaled / d)
  if infinityBits ≤ lower then infinityBits
  else
    match compare (2 * scaled) (d * (units lower + units (lower + 1))) with
    | .lt => lower
    | .eq => lower + lower % 2
    | .gt => lower + 1

/-- The magnitude pattern nearest to `digits * 10 ^ exponent`. The two early answers are those of
the general rule; they keep the powers of ten small. -/
def decimalBits (digits : Nat) (exponent : Int) : Nat :=
  if digits = 0 then 0
  else if 310 ≤ exponent then infinityBits
  else if (digits.log2 : Int) + 1100 ≤ 3 * (-exponent) then 0
  else nearestBits (digits * 10 ^ exponent.toNat) (10 ^ (-exponent).toNat)

/-- The double nearest to `digits * 10 ^ exponent`, with the sign as given. -/
def ofDecimal (negative : Bool) (digits : Nat) (exponent : Int) : Float :=
  ofMagnitude negative (decimalBits digits exponent)

/-- Below two normal binades the pattern is the value. -/
theorem units_of_lt {b : Nat} (h : b < 2 ^ 53) : units b = b := by
  simp only [units, h, if_true]

/-- Zero has no units. -/
theorem units_zero : units 0 = 0 :=
  units_of_lt (by decide)

end DeskCalculator.Number
