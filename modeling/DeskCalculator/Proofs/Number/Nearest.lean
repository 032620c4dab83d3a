import DeskCalculator.Number.Decimal
import Mathlib.Data.Nat.Dist
import Mathlib.Order.Monotone.Basic

/-!
# The nearest double and the nearest decimal

`units` rises with the bit pattern, and between the pattern `floorBits u` and the next one lies `u`.
So `nearestBits` finds a pattern that no other is nearer than. Distances are compared without
fractions: that of the double `b` from `n / d` is counted in units times `d`.

A double rounded to some decimal places is a decimal. The double nearest to that decimal is not
farther from it than the first one was, so it rounds to the same decimal again.
-/

namespace DeskCalculator.Number

/-! ### Units -/

/-- The units of a pattern with an exponent field. A mantissa that runs over is the next exponent's
first. -/
theorem units_field (e : Nat) {m : Nat} (hm : m ≤ 2 ^ 52) :
    units ((e + 1) * 2 ^ 52 + m) = (2 ^ 52 + m) * 2 ^ e := by
  rcases Nat.lt_or_eq_of_le hm with hlt | rfl
  · have hdiv : ((e + 1) * 2 ^ 52 + m) / 2 ^ 52 = e + 1 := by omega
    have hmod : ((e + 1) * 2 ^ 52 + m) % 2 ^ 52 = m := by omega
    by_cases hsmall : (e + 1) * 2 ^ 52 + m < 2 ^ 53
    · obtain rfl : e = 0 := by omega
      rw [units_of_lt hsmall]
      omega
    · rw [units, if_neg hsmall, hdiv, hmod, Nat.add_sub_cancel]
  · have hdiv : ((e + 1) * 2 ^ 52 + 2 ^ 52) / 2 ^ 52 = e + 2 := by omega
    have hmod : ((e + 1) * 2 ^ 52 + 2 ^ 52) % 2 ^ 52 = 0 := by omega
    rw [units, if_neg (by omega), hdiv, hmod]
    change (2 ^ 52 + 0) * 2 ^ (e + 1) = _
    rw [Nat.pow_succ]
    omega

/-- A pattern from the second binade on has an exponent field and a mantissa. -/
private theorem exists_field {b : Nat} (h : 2 ^ 52 ≤ b) :
    ∃ e m, m < 2 ^ 52 ∧ b = (e + 1) * 2 ^ 52 + m :=
  ⟨b / 2 ^ 52 - 1, b % 2 ^ 52, by omega, by omega⟩

/-- The next pattern has one more in the mantissa. -/
theorem units_field_succ (e : Nat) {m : Nat} (hm : m < 2 ^ 52) :
    units ((e + 1) * 2 ^ 52 + m + 1) = units ((e + 1) * 2 ^ 52 + m) + 2 ^ e := by
  rw [Nat.add_assoc, units_field e hm, units_field e (Nat.le_of_lt hm), Nat.add_succ, Nat.succ_mul]

theorem units_lt_units_succ (b : Nat) : units b < units (b + 1) := by
  by_cases h : b < 2 ^ 52
  · rw [units_of_lt (by omega), units_of_lt (by omega)]
    omega
  · obtain ⟨e, m, hm, rfl⟩ := exists_field (Nat.le_of_not_lt h)
    rw [units_field_succ e hm]
    exact Nat.lt_add_of_pos_right (Nat.two_pow_pos e)

/-- Greater patterns have more units. -/
theorem units_strictMono : StrictMono units :=
  strictMono_nat_of_lt_succ units_lt_units_succ

/-- Finite doubles are far from infinity. -/
private theorem units_add_lt_of_lt {b : Nat} (h : b < infinityBits) :
    units b + 2 ^ unitExponent < units infinityBits := by
  have hinfinity : (2045 + 1) * 2 ^ 52 + (2 ^ 52 - 1) + 1 = infinityBits := rfl
  have hle : b ≤ (2045 + 1) * 2 ^ 52 + (2 ^ 52 - 1) := by omega
  have hpow {e : Nat} (he : unitExponent < e) : 2 ^ unitExponent < 2 ^ e :=
    Nat.pow_lt_pow_right (by decide) he
  rw [← hinfinity, units_field_succ 2045 (by decide)]
  exact Nat.add_lt_add_of_le_of_lt (units_strictMono.monotone hle) (hpow (by decide))

/-- The pattern that a number of units is cut to: it is the number itself, or has its leading
binary digits. -/
theorem floorBits_cases (u : Nat) :
    (u < 2 ^ 52 ∧ floorBits u = u) ∨
      ∃ e m, m < 2 ^ 52 ∧ floorBits u = (e + 1) * 2 ^ 52 + m ∧ (2 ^ 52 + m) * 2 ^ e ≤ u ∧
        u < (2 ^ 52 + (m + 1)) * 2 ^ e := by
  by_cases hsmall : u < 2 ^ 52
  · have hlog : u.log2 - 52 = 0 := by
      rcases Nat.eq_zero_or_pos u with rfl | hpos
      · rfl
      · have := (Nat.log2_lt (by omega)).mpr hsmall
        omega
    exact .inl ⟨hsmall, by rw [floorBits, hlog]; simp⟩
  · have hlog : 52 ≤ u.log2 := (Nat.le_log2 (by omega)).mpr (by omega)
    obtain ⟨e, he⟩ := Nat.exists_eq_add_of_le hlog
    have hlow : 2 ^ 52 * 2 ^ e ≤ u := by
      rw [← Nat.pow_add, ← he]
      exact Nat.log2_self_le (by omega)
    have hhigh : u < 2 ^ 53 * 2 ^ e := by
      rw [← Nat.pow_add, show 53 + e = u.log2 + 1 by omega]
      exact Nat.lt_log2_self
    have hpos : 0 < 2 ^ e := Nat.two_pow_pos e
    have hq : 2 ^ 52 ≤ u / 2 ^ e := (Nat.le_div_iff_mul_le hpos).mpr hlow
    have hq' : u / 2 ^ e < 2 ^ 53 := (Nat.div_lt_iff_lt_mul hpos).mpr hhigh
    refine .inr ⟨e, u / 2 ^ e - 2 ^ 52, by omega, ?_, ?_, ?_⟩
    · rw [floorBits, show u.log2 - 52 = e by omega, Nat.shiftRight_eq_div_pow]
      omega
    · rw [Nat.add_sub_cancel' hq]
      exact Nat.div_mul_le_self u _
    · rw [← Nat.add_assoc, Nat.add_sub_cancel' hq]
      exact (Nat.div_lt_iff_lt_mul hpos).mp (Nat.lt_succ_self _)

theorem units_floorBits_le (u : Nat) : units (floorBits u) ≤ u := by
  rcases floorBits_cases u with ⟨hu, h⟩ | ⟨e, m, hm, h, hlow, -⟩
  · rw [h, units_of_lt (by omega)]
  · rwa [h, units_field e (Nat.le_of_lt hm)]

theorem lt_units_floorBits_succ (u : Nat) : u < units (floorBits u + 1) := by
  rcases floorBits_cases u with ⟨hu, h⟩ | ⟨e, m, hm, h, -, hhigh⟩
  · rw [h, units_of_lt (by omega)]
    omega
  · rwa [h, Nat.add_assoc, units_field e hm]

/-! ### The nearest double -/

section

variable {n d : Nat}

/-- A comparison with the middle of two neighbours picks the one that is not farther. -/
private theorem compare_middle_cases (scaled middle lower : Nat) :
    let b := match compare (2 * scaled) middle with
      | .lt => lower
      | .eq => lower + lower % 2
      | .gt => lower + 1
    (b = lower ∧ 2 * scaled ≤ middle) ∨ (b = lower + 1 ∧ middle ≤ 2 * scaled) := by
  cases hcompare : compare (2 * scaled) middle with
  | lt => exact .inl ⟨rfl, Nat.le_of_lt (Nat.compare_eq_lt.mp hcompare)⟩
  | eq =>
    have heq : 2 * scaled = middle := Nat.compare_eq_eq.mp hcompare
    rcases Nat.mod_two_eq_zero_or_one lower with heven | hodd
    · exact .inl ⟨by rw [heven]; rfl, Nat.le_of_eq heq⟩
    · exact .inr ⟨by rw [hodd], Nat.le_of_eq heq.symm⟩
  | gt => exact .inr ⟨rfl, Nat.le_of_lt (Nat.compare_eq_gt.mp hcompare)⟩

/-- Below infinity the nearest pattern is one of two neighbours, and the other is not nearer. -/
theorem nearestBits_cases {lower : Nat} (hlower : floorBits (n * 2 ^ unitExponent / d) = lower)
    (h : lower < infinityBits) :
    (nearestBits n d = lower ∧
        2 * (n * 2 ^ unitExponent) ≤ d * units lower + d * units (lower + 1)) ∨
      (nearestBits n d = lower + 1 ∧
        d * units lower + d * units (lower + 1) ≤ 2 * (n * 2 ^ unitExponent)) := by
  rw [nearestBits, hlower, if_neg (Nat.not_le_of_lt h), ← Nat.mul_add]
  exact compare_middle_cases _ _ _

/-- What is nearest to a quotient is a double or infinity. -/
private theorem nearestBits_le (n d : Nat) : nearestBits n d ≤ infinityBits := by
  by_cases h : floorBits (n * 2 ^ unitExponent / d) < infinityBits
  · rcases nearestBits_cases rfl h with ⟨heq, -⟩ | ⟨heq, -⟩
    · omega
    · omega
  · rw [nearestBits, if_pos (Nat.le_of_not_lt h)]

/-- No double, and not infinity if that counts as the next one, is nearer to a quotient. -/
theorem dist_nearestBits_le (hd : 0 < d) {b : Nat} (hb : b ≤ infinityBits) :
    Nat.dist (d * units (nearestBits n d)) (n * 2 ^ unitExponent) ≤
      Nat.dist (d * units b) (n * 2 ^ unitExponent) := by
  obtain ⟨lower, hlower⟩ : ∃ lower, floorBits (n * 2 ^ unitExponent / d) = lower := ⟨_, rfl⟩
  have hlow : d * units lower ≤ n * 2 ^ unitExponent := by
    rw [Nat.mul_comm, ← hlower]
    exact (Nat.le_div_iff_mul_le hd).mp (units_floorBits_le _)
  have hhigh : n * 2 ^ unitExponent < d * units (lower + 1) := by
    rw [Nat.mul_comm d, ← hlower]
    exact (Nat.div_lt_iff_lt_mul hd).mp (lt_units_floorBits_succ _)
  have hmono {b c : Nat} (h : b ≤ c) : d * units b ≤ d * units c :=
    Nat.mul_le_mul_left d (units_strictMono.monotone h)
  by_cases hfinite : lower < infinityBits
  · have hcases := nearestBits_cases hlower hfinite
    have hside : d * units b ≤ d * units lower ∨ d * units (lower + 1) ≤ d * units b := by
      rcases Nat.lt_or_ge lower b with h | h
      · exact .inr (hmono h)
      · exact .inl (hmono h)
    clear hlower
    generalize n * 2 ^ unitExponent = scaled at *
    unfold Nat.dist
    rcases hcases with ⟨heq, hmiddle⟩ | ⟨heq, hmiddle⟩
    · rw [heq]
      omega
    · rw [heq]
      omega
  · have hinfinity : nearestBits n d = infinityBits := by
      rw [nearestBits, hlower, if_pos (Nat.le_of_not_lt hfinite)]
    have hbelow := hmono (Nat.le_of_not_lt hfinite)
    have hb := hmono hb
    rw [hinfinity]
    clear hlower
    generalize n * 2 ^ unitExponent = scaled at *
    unfold Nat.dist
    omega

/-- Zero is nearest to zero. -/
theorem nearestBits_zero (hd : 0 < d) : nearestBits 0 d = 0 := by
  have hnear := dist_nearestBits_le (n := 0) hd (Nat.zero_le infinityBits)
  rw [units_zero, Nat.zero_mul, Nat.mul_zero, Nat.dist_self, Nat.dist_zero_right] at hnear
  apply units_strictMono.injective
  rw [units_zero]
  exact (Nat.mul_eq_zero.mp (Nat.le_zero.mp hnear)).resolve_left (Nat.ne_of_gt hd)

/-- A decimal with few places is read as the nearest double. -/
theorem decimalBits_neg (digits : Nat) {places : Nat} (h : 3 * places < 1100) :
    decimalBits digits (-(places : Int)) = nearestBits digits (10 ^ places) := by
  unfold decimalBits
  split
  · next hzero => rw [hzero, nearestBits_zero (Nat.pow_pos (by decide))]
  · rw [if_neg (by omega), if_neg (by omega), Int.toNat_neg_natCast, Nat.pow_zero, Nat.mul_one,
      Int.neg_neg, Int.toNat_natCast]

end

/-! ### The nearest decimal -/

/-- `q` divisors are at most half a divisor away from `n`, and `q` is even if it is half a
divisor. -/
def IsNearestMultiple (n d q : Nat) : Prop :=
  2 * Nat.dist n (d * q) ≤ d ∧ (2 * Nat.dist n (d * q) = d → q % 2 = 0)

section

variable {n d q r : Nat}

private theorem isNearestMultiple_roundDiv (n : Nat) (hd : 0 < d) :
    IsNearestMultiple n d (roundDiv n d) := by
  have hlow := le_roundDiv n d hd
  have hhigh := roundDiv_le n d
  refine ⟨by unfold Nat.dist; omega, fun htie ↦ ?_⟩
  have hn := Nat.div_add_mod n d
  have hr := Nat.mod_lt n hd
  have hsucc : d * (n / d + 1) = d * (n / d) + d := Nat.mul_succ _ _
  unfold roundDiv at htie ⊢
  split
  · next hbelow =>
    rw [if_pos hbelow, Nat.dist] at htie
    omega
  · next hbelow =>
    rw [if_neg hbelow] at htie
    split
    · next habove =>
      rw [if_pos habove, Nat.dist] at htie
      omega
    · omega

theorem IsNearestMultiple.not_lt (hq : IsNearestMultiple n d q) (hr : IsNearestMultiple n d r)
    (hd : 0 < d) : ¬ q < r := by
  intro hlt
  obtain ⟨hqdist, hqtie⟩ := hq
  obtain ⟨hrdist, hrtie⟩ := hr
  have hsucc : d * (q + 1) = d * q + d := Nat.mul_succ _ _
  have hle : d * (q + 1) ≤ d * r := Nat.mul_le_mul_left d hlt
  -- Both are half a divisor away, so they are neighbours and cannot both be even.
  unfold Nat.dist at hqdist hqtie hrdist hrtie
  have hneighbours : d * (q + 1) = d * r := by omega
  have hr : q + 1 = r := Nat.eq_of_mul_eq_mul_left hd hneighbours
  have hqeven := hqtie (by omega)
  have hreven := hrtie (by omega)
  omega

/-- There is one nearest multiple. -/
theorem IsNearestMultiple.unique (hq : IsNearestMultiple n d q) (hr : IsNearestMultiple n d r)
    (hd : 0 < d) : q = r := by
  have hle := hq.not_lt hr hd
  have hge := hr.not_lt hq hd
  omega

/-- What is not farther away has the same nearest multiple. -/
private theorem IsNearestMultiple.of_dist_le {m : Nat} (h : IsNearestMultiple n d q)
    (hdist : Nat.dist m (d * q) ≤ Nat.dist n (d * q)) : IsNearestMultiple m d q :=
  ⟨by have := h.1; omega, fun htie ↦ h.2 (by have := h.1; omega)⟩

end

/-- The double nearest to a decimal that a double is rounded to is finite and is rounded to the same
decimal. The decimal may be written with fewer places. -/
theorem scaledMagnitude_nearestBits {places bits n d c : Nat} (hbits : bits < infinityBits)
    (hd : d * c = 10 ^ places) (hn : n * c = scaledMagnitude places bits) :
    nearestBits n d < infinityBits ∧
      scaledMagnitude places (nearestBits n d) = scaledMagnitude places bits := by
  have hpow : 0 < 10 ^ places := Nat.pow_pos (by decide)
  have hunit : 0 < 2 ^ unitExponent := Nat.two_pow_pos _
  have hdpos : 0 < d := Nat.pos_of_mul_pos_right (hd ▸ hpow)
  have hrounded : IsNearestMultiple (units bits * 10 ^ places) (2 ^ unitExponent)
      (scaledMagnitude places bits) := isNearestMultiple_roundDiv _ hunit
  -- The nearest double is not farther from the decimal, counted in its places.
  have hdist : Nat.dist (units (nearestBits n d) * 10 ^ places)
        (2 ^ unitExponent * scaledMagnitude places bits) ≤
      Nat.dist (units bits * 10 ^ places) (2 ^ unitExponent * scaledMagnitude places bits) := by
    have hscale (b : Nat) : Nat.dist (units b * 10 ^ places)
          (2 ^ unitExponent * scaledMagnitude places bits) =
        Nat.dist (d * units b) (n * 2 ^ unitExponent) * c := by
      rw [← Nat.dist_mul_right, ← hd, ← hn, ← Nat.mul_assoc, Nat.mul_comm (units b),
        ← Nat.mul_assoc, Nat.mul_comm (2 ^ unitExponent)]
    rw [hscale, hscale]
    exact Nat.mul_le_mul_right c (dist_nearestBits_le hdpos (Nat.le_of_lt hbits))
  refine ⟨?_, ?_⟩
  · apply Nat.lt_of_le_of_ne (nearestBits_le n d)
    intro heq
    rw [heq] at hdist
    have hfar := Nat.mul_lt_mul_of_pos_right (units_add_lt_of_lt hbits) hpow
    have hgap : 2 ^ unitExponent ≤ 2 ^ unitExponent * 10 ^ places := Nat.le_mul_of_pos_right _ hpow
    have hnear := hrounded.1
    rw [Nat.add_mul] at hfar
    generalize 2 ^ unitExponent = unit at *
    unfold Nat.dist at hdist hnear
    omega
  · exact (isNearestMultiple_roundDiv _ hunit).unique (hrounded.of_dist_le hdist) hunit

end DeskCalculator.Number
