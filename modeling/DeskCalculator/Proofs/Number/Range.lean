import DeskCalculator.Proofs.Number.Exact

/-!
# Staying in range

Rounding makes the exponent of a number at most one greater than that of its leading digits, so
nothing below half of the range leaves it. A finite double divided by two or more stays there
(`isFinite_div`), and so does a whole number of 64 bits. A product leaves it for infinity only.
-/

namespace DeskCalculator.Number

open Float.Model UnpackedFloat

/-! ### Rounding -/

theorem mantissa_shiftRight (em : ExtendedMantissa) (n : ℕ) :
    (em >>> n).mantissa = em.mantissa / 2 ^ n := by
  have hrepeat : (em >>> n) = n.repeat ExtendedMantissa.shiftRightOne em := rfl
  rw [hrepeat]
  induction n with
  | zero => exact (Nat.div_one _).symm
  | succ n ih =>
    have hone : (Nat.repeat ExtendedMantissa.shiftRightOne (n + 1) em).mantissa =
        (Nat.repeat ExtendedMantissa.shiftRightOne n em).mantissa / 2 := rfl
    rw [hone, ih rfl, Nat.div_div_eq_div_mul, Nat.pow_succ]

theorem mantissa_ofMantissaAndAccuracy (m : ℕ) (accuracy : Accuracy) :
    (ExtendedMantissa.ofMantissaAndAccuracy m accuracy).mantissa = m := by
  rcases accuracy with _ | _ | _ | _ <;> rfl

/-- Rounding goes to the next mantissa at most. -/
theorem roundedMantissa_le (em : ExtendedMantissa) : em.roundedMantissa ≤ em.mantissa + 1 := by
  rw [ExtendedMantissa.roundedMantissa]
  rcases em.accuracy with _ | _ | _ | _
  · exact Nat.le_succ _
  · exact Nat.le_succ _
  · change em.mantissa + em.mantissa % 2 ≤ em.mantissa + 1
    omega
  · exact Nat.le_refl _

section

variable {m : ℕ} {e : ℤ} (accuracy : Accuracy)

theorem targetExponent_eq (t : ℤ) :
    Format.binary64.targetExponent t = max (t - 53) (-1074) := rfl

/-- The exponent rises to what the leading digit asks for. -/
theorem exponent_shiftToTargetExponent :
    (shiftToTargetExponent .binary64 m e accuracy).2 =
      max e (max (totalExponent m e - 53) (-1074)) := by
  have hshift : (shiftToTargetExponent .binary64 m e accuracy).2 =
      e + (Format.binary64.targetExponent (totalExponent m e) - e).toNat := rfl
  rw [hshift, targetExponent_eq]
  omega

/-- The mantissa has at most 53 digits then. -/
private theorem mantissa_shiftToTargetExponent_lt :
    (shiftToTargetExponent .binary64 m e accuracy).1.mantissa < 2 ^ 53 := by
  obtain ⟨n, hn⟩ : ∃ n, (Format.binary64.targetExponent (totalExponent m e) - e).toNat = n :=
    ⟨_, rfl⟩
  have hshift : (shiftToTargetExponent .binary64 m e accuracy).1.mantissa = m / 2 ^ n := by
    have heq : (shiftToTargetExponent .binary64 m e accuracy).1 =
        ExtendedMantissa.ofMantissaAndAccuracy m accuracy >>>
          (Format.binary64.targetExponent (totalExponent m e) - e).toNat := rfl
    rw [heq, hn, mantissa_shiftRight, mantissa_ofMantissaAndAccuracy]
  have hdigits : m.log2 + 1 ≤ 53 + n := by
    rw [targetExponent_eq, totalExponent] at hn
    omega
  rw [hshift, Nat.div_lt_iff_lt_mul (Nat.two_pow_pos n), ← Nat.pow_add]
  exact Nat.lt_of_lt_of_le Nat.lt_log2_self (Nat.pow_le_pow_right (by decide) hdigits)

theorem isFinite_pack_zero (s : Sign) : (Float.Model.pack (.zero s)).isFinite := by
  cases s <;> rfl

/-- What is below half of the range is rounded to something in it. -/
theorem isFinite_pack_roundWithAccuracy (s : Sign) (he : e ≤ 970)
    (htotal : totalExponent m e ≤ 1023) :
    (Float.Model.pack (roundWithAccuracy .binary64 s m e accuracy)).isFinite := by
  obtain ⟨first, hfirst⟩ : ∃ r, shiftToTargetExponent .binary64 m e accuracy = r := ⟨_, rfl⟩
  have hexponent : first.2 ≤ 970 := by
    rw [← hfirst, exponent_shiftToTargetExponent]
    omega
  have hrounded : first.1.roundedMantissa ≤ 2 ^ 53 := by
    have hlt := mantissa_shiftToTargetExponent_lt (m := m) (e := e) accuracy
    rw [hfirst] at hlt
    exact Nat.le_trans (roundedMantissa_le _) hlt
  obtain ⟨last, hlast⟩ :
      ∃ r, shiftToTargetExponent .binary64 first.1.roundedMantissa first.2 .exact = r := ⟨_, rfl⟩
  have hfinal : last.2 ≤ 971 := by
    have hlog : first.1.roundedMantissa.log2 ≤ 53 := by
      rw [Nat.log2_eq_log_two, ← Nat.log_pow (b := 2) (by decide) 53]
      exact Nat.log_mono_right hrounded
    rw [← hlast, exponent_shiftToTargetExponent, totalExponent]
    omega
  rw [roundWithAccuracy, hfirst]
  dsimp only
  rw [hlast]
  split
  · exact isFinite_pack_zero s
  · exact isFinite_pack_of_exponent_le _ hfinal

end

/-! ### Quotients -/

/-- A number has its leading digit where a power of two says that it is. -/
theorem lt_log2_add {a m n : ℕ} (h : 2 ^ a ≤ m * 2 ^ n) : a < m.log2 + 1 + n := by
  rw [← Nat.pow_lt_pow_iff_right (a := 2) (by decide), Nat.pow_add 2 (m.log2 + 1)]
  exact Nat.lt_of_le_of_lt h
    (Nat.mul_lt_mul_of_pos_right Nat.lt_log2_self (Nat.two_pow_pos n))

/-- A quotient has as many digits as the dividend has more than the divisor, or one more. -/
private theorem totalExponent_divCore_le {m₁ m₂ : ℕ} {e₁ e₂ : ℤ} (hm₂ : 0 < m₂)
    (htotal : totalExponent m₁ e₁ - totalExponent m₂ e₂ ≤ 1022) :
    (divCore .binary64 m₁ e₁ m₂ e₂).2.1 ≤ 970 ∧
      totalExponent (divCore .binary64 m₁ e₁ m₂ e₂).1 (divCore .binary64 m₁ e₁ m₂ e₂).2.1 ≤
        1023 := by
  obtain ⟨t, ht⟩ : ∃ t, (divCore .binary64 m₁ e₁ m₂ e₂).2.1 = t := ⟨_, rfl⟩
  have hexponent : t = min (e₁ - e₂)
      (max (totalExponent m₁ e₁ - totalExponent m₂ e₂ - 53) (-1074)) := by
    rw [← ht, ← targetExponent_eq]
    rfl
  obtain ⟨n, hn⟩ : ∃ n, (e₁ - e₂ - t).toNat = n := ⟨_, rfl⟩
  have hmantissa : (divCore .binary64 m₁ e₁ m₂ e₂).1 = m₁ * 2 ^ n / m₂ := by
    rw [← Nat.shiftLeft_eq, ← hn, ← ht]
    rfl
  rw [ht, hmantissa]
  refine ⟨by omega, ?_⟩
  obtain ⟨q, hq⟩ : ∃ q, m₁ * 2 ^ n / m₂ = q := ⟨_, rfl⟩
  rw [hq]
  unfold totalExponent at htotal hexponent ⊢
  by_cases hzero : q = 0
  · rw [hzero, Nat.log2_zero]
    omega
  · have hpow : 2 ^ (q.log2 + m₂.log2) ≤ m₁ * 2 ^ n := by
      rw [Nat.pow_add]
      calc
        2 ^ q.log2 * 2 ^ m₂.log2 ≤ q * m₂ :=
          Nat.mul_le_mul (Nat.log2_self_le hzero) (Nat.log2_self_le hm₂.ne')
        _ ≤ m₁ * 2 ^ n := by rw [← hq]; exact Nat.div_mul_le_self _ _
    have hlog := lt_log2_add hpow
    omega

/-- A finite double divided by a finite one of at least two is finite. -/
theorem isFinite_div {x y : Float} (hx : x.isFinite) (hy : y.isFinite)
    (hle : 2 ^ (unitExponent + 1) ≤ units (magnitudeBits y)) : (x / y).isFinite := by
  have hquotient :
      x / y = ⟨Float.Model.pack (.div .binary64 x.toModel.unpack y.toModel.unpack)⟩ := rfl
  rw [hquotient]
  rcases unpack_cases_of_isFinite hy with ⟨t, -, hunits⟩ | ⟨t, n, l, hn, hyunpack, hyparts⟩
  · rw [hunits] at hle
    exact absurd hle (Nat.not_le_of_lt (Nat.two_pow_pos _))
  · rw [hyunpack]
    rcases unpack_cases_of_isFinite hx with ⟨s, hxunpack, -⟩ | ⟨s, m, k, hm, hxunpack, hxparts⟩
    · rw [hxunpack]
      exact isFinite_pack_zero _
    · rw [hxunpack]
      rw [hyparts.units] at hle
      have hdividend : m.log2 + 1 ≤ 53 := (Nat.log2_lt hm.ne').mpr hxparts.mantissa_lt
      have hdivisor : unitExponent + 1 < n.log2 + 1 + l := lt_log2_add hle
      have htotal : totalExponent m (k - unitExponent) - totalExponent n (l - unitExponent) ≤
          1022 := by
        have hk := hxparts.doublings_le
        unfold totalExponent
        unfold unitExponent at hdivisor ⊢
        omega
      obtain ⟨hexponent, hdigits⟩ := totalExponent_divCore_le hn htotal
      exact isFinite_pack_roundWithAccuracy _ _ hexponent hdigits

/-! ### Products -/

/-- What is packed is finite or infinite unless it was no number. -/
theorem isFinite_or_isInf_pack {u : UnpackedFloat} (h : u.isNaN = false) :
    (Float.Model.pack u).isFinite ∨ (Float.Model.pack u).isInf := by
  have hinfinity (s : Sign) : (Float.Model.pack (.infinity s)).isInf := by cases s <;> rfl
  cases u with
  | notANumber => cases h
  | infinity s => exact .inr (hinfinity s)
  | zero s => exact .inl (isFinite_pack_zero s)
  | finite s m e hm =>
    by_cases he : e ≤ 971
    · exact .inl (isFinite_pack_of_exponent_le hm he)
    · have hbiased : 2 ^ Format.binary64.exponentBits ≤ (e + Format.binary64.exponentBias +
          Format.binary64.mantissaBitsWithoutImplicit).toNat + 1 := by
        change 2 ^ 11 ≤ (e + (1023 : ℕ) + (52 : ℕ)).toNat + 1
        omega
      have hpack : UnpackedFloat.pack .binary64 (.finite s m e hm) =
          UnpackedFloat.pack .binary64 (.infinity s) := by
        delta UnpackedFloat.pack
        exact if_pos hbiased
      have hmodel : Float.Model.pack (.finite s m e hm) = Float.Model.pack (.infinity s) :=
        (Float.Model.mk.injEq ..).mpr (congrArg UInt64.ofBitVec hpack)
      rw [hmodel]
      exact .inr (hinfinity s)

/-- A product of finite doubles is finite or infinite. -/
theorem isFinite_or_isInf_mul {x y : Float} (hx : x.isFinite) (hy : y.isFinite) :
    (x * y).isFinite ∨ (x * y).isInf := by
  have hproduct :
      x * y = ⟨Float.Model.pack (.mul .binary64 x.toModel.unpack y.toModel.unpack)⟩ := rfl
  rw [hproduct]
  apply isFinite_or_isInf_pack
  rcases unpack_cases_of_isFinite hx with ⟨s, hxunpack, -⟩ | ⟨s, m, k, hm, hxunpack, -⟩
  · rcases unpack_cases_of_isFinite hy with ⟨t, hyunpack, -⟩ | ⟨t, n, l, hn, hyunpack, -⟩
    · rw [hxunpack, hyunpack]
      rfl
    · rw [hxunpack, hyunpack]
      rfl
  · rcases unpack_cases_of_isFinite hy with ⟨t, hyunpack, -⟩ | ⟨t, n, l, hn, hyunpack, -⟩
    · rw [hxunpack, hyunpack]
      rfl
    · rw [hxunpack, hyunpack, UnpackedFloat.mul, roundWithAccuracy]
      dsimp only
      split
      · rfl
      · rfl

/-! ### Whole numbers -/

/-- The greatest power of ten that is in range. -/
def greatestPower : ℕ := 308

section

variable {digits k : ℕ}

/-- A number that is scaled up is rounded to the nearest double. -/
theorem decimalBits_natCast (digits : ℕ) (h : k < 310) :
    decimalBits digits k = nearestBits (digits * 10 ^ k) 1 := by
  unfold decimalBits
  split
  · next hzero => rw [hzero, Nat.zero_mul, nearestBits_zero (by decide)]
  · rw [if_neg (by omega), if_neg (by omega), Int.toNat_natCast]
    have hdivisor : (-(k : ℤ)).toNat = 0 := by omega
    rw [hdivisor, Nat.pow_zero]

/-- The nearest double is not below a double that is not above the number, and it is finite if the
number is in range. -/
theorem nearestBits_bounds {n low : ℕ} (hlow : units low ≤ n * 2 ^ unitExponent)
    (hhigh : n ≤ 10 ^ greatestPower) : low ≤ nearestBits n 1 ∧ nearestBits n 1 < infinityBits := by
  have hgreatest : 10 ^ greatestPower * 2 ^ unitExponent ≤ units (infinityBits - 2) := by
    decide +kernel
  obtain ⟨lower, hlower⟩ : ∃ lower, floorBits (n * 2 ^ unitExponent / 1) = lower := ⟨_, rfl⟩
  have hfloor : units lower ≤ n * 2 ^ unitExponent := by
    rw [← hlower, Nat.div_one]
    exact units_floorBits_le _
  have hnext : n * 2 ^ unitExponent < units (lower + 1) := by
    rw [← hlower, Nat.div_one]
    exact lt_units_floorBits_succ _
  have hbelow : lower ≤ infinityBits - 2 := by
    apply units_strictMono.le_iff_le.mp
    calc
      units lower ≤ n * 2 ^ unitExponent := hfloor
      _ ≤ 10 ^ greatestPower * 2 ^ unitExponent := Nat.mul_le_mul_right _ hhigh
      _ ≤ units (infinityBits - 2) := hgreatest
  have habove : low ≤ lower :=
    Nat.le_of_lt_succ (units_strictMono.lt_iff_lt.mp (Nat.lt_of_le_of_lt hlow hnext))
  have hinfinity : 2 ≤ infinityBits := by decide
  rcases nearestBits_cases hlower (by omega) with ⟨heq, -⟩ | ⟨heq, -⟩
  · omega
  · omega

/-- A whole number up to the greatest power of ten is finite as a double. -/
theorem isFinite_ofDecimal (negative : Bool) (hk : k < 310)
    (h : digits * 10 ^ k ≤ 10 ^ greatestPower) : (ofDecimal negative digits k).isFinite := by
  have hzero : units 0 ≤ digits * 10 ^ k * 2 ^ unitExponent := by
    rw [units_zero]
    exact Nat.zero_le _
  have hbits := (nearestBits_bounds hzero h).2
  rw [ofDecimal, decimalBits_natCast digits hk]
  apply isFinite_of_magnitudeBits_lt
  rwa [magnitudeBits_ofMagnitude negative hbits]

/-- A whole number of 64 bits is finite as a double. -/
theorem isFinite_ofDecimal_zero (negative : Bool) (h : digits ≤ 2 ^ 64) :
    (ofDecimal negative digits 0).isFinite := by
  refine isFinite_ofDecimal (k := 0) negative (by decide) ?_
  calc
    digits * 10 ^ 0 = digits := Nat.mul_one digits
    _ ≤ 2 ^ 64 := h
    _ ≤ 10 ^ 64 := Nat.pow_le_pow_left (by decide) 64
    _ ≤ 10 ^ greatestPower := Nat.pow_le_pow_right (by decide) (by decide)

/-- A whole number that is at least two is at least two as a double. -/
theorem le_units_ofDecimal (negative : Bool) (hk : k < 310)
    (h : digits * 10 ^ k ≤ 10 ^ greatestPower) (htwo : 2 ≤ digits * 10 ^ k) :
    2 ^ (unitExponent + 1) ≤ units (magnitudeBits (ofDecimal negative digits k)) := by
  have hunits : units (1024 * 2 ^ 52) = 2 ^ (unitExponent + 1) := by decide +kernel
  have hlow : units (1024 * 2 ^ 52) ≤ digits * 10 ^ k * 2 ^ unitExponent := by
    rw [hunits, Nat.pow_succ']
    exact Nat.mul_le_mul_right _ htwo
  obtain ⟨hle, hbits⟩ := nearestBits_bounds hlow h
  rw [ofDecimal, decimalBits_natCast digits hk, magnitudeBits_ofMagnitude negative hbits, ← hunits]
  exact units_strictMono.monotone hle

end

end DeskCalculator.Number
