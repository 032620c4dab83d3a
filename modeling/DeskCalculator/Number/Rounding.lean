/-!
# Rounding a quotient

One decision serves every place where a number is cut to a grid: a quotient of natural numbers
goes to the nearest natural number, and a half goes to the even neighbour.
-/

namespace DeskCalculator.Number

/-- The natural number nearest to `n / d`, a half going to the even one. -/
def roundDiv (n d : Nat) : Nat :=
  if 2 * (n % d) < d then n / d
  else if d < 2 * (n % d) then n / d + 1
  else n / d + n / d % 2

/-- A quotient without remainder is kept. -/
theorem roundDiv_mul_left (q d : Nat) (hd : 0 < d) : roundDiv (d * q) d = q := by
  simp [roundDiv, hd]

/-- The rounded quotient is at most half a divisor below the number. -/
theorem le_roundDiv (n d : Nat) (hd : 0 < d) : 2 * n ≤ 2 * (d * roundDiv n d) + d := by
  have h := Nat.div_add_mod n d
  have hr := Nat.mod_lt n hd
  have hup : d * (n / d + 1) = d * (n / d) + d := Nat.mul_succ _ _
  have hle : d * (n / d) ≤ d * (n / d + n / d % 2) := Nat.mul_le_mul_left _ (Nat.le_add_right _ _)
  unfold roundDiv
  split
  · omega
  · split <;> omega

/-- The rounded quotient is at most half a divisor above the number. -/
theorem roundDiv_le (n d : Nat) : 2 * (d * roundDiv n d) ≤ 2 * n + d := by
  have h := Nat.div_add_mod n d
  have hup : d * (n / d + 1) = d * (n / d) + d := Nat.mul_succ _ _
  have hle : d * (n / d + n / d % 2) ≤ d * (n / d + 1) := Nat.mul_le_mul_left _ (by omega)
  unfold roundDiv
  split
  · omega
  · split <;> omega

end DeskCalculator.Number
