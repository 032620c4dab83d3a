import DeskCalculator.Proofs.Number.Nearest
import DeskCalculator.Proofs.Number.Signs

/-!
# What a double denotes

A finite double denotes a rational number. The exponent field and the mantissa count that number in
units of `2 ^ -1074`, whether the pattern is subnormal or not.
-/

namespace DeskCalculator.Number

open Float.Model UnpackedFloat

/-! ### Mantissa and exponent -/

/-- Whether a sign, a mantissa and a number of doublings are those of a finite double. -/
structure HasParts (x : Float) (s : Sign) (m k : ℕ) : Prop where
  negative : isNegative x = decide (s.toBitVec.toNat = 1)
  units : units (magnitudeBits x) = m * 2 ^ k
  mantissa_lt : m < 2 ^ 53
  doublings_le : k ≤ 2045

/-- A pattern whose two fields are zero is zero. -/
private theorem unpack_packComponents_zero (s : Sign) :
    UnpackedFloat.unpack .binary64 (packComponents .binary64 s 0#11 0#52) = .zero s := by
  delta UnpackedFloat.unpack
  simp only [unpackExponent_packComponents, unpackMantissa_packComponents,
    unpackSign_packComponents, Sign.ofBitVec_toBitVec]
  rw [if_neg (by decide), if_pos trivial, dif_pos trivial]

/-- A subnormal pattern holds its mantissa, in the least unit. -/
private theorem unpack_packComponents_subnormal (s : Sign) {m : BitVec 52} (hm : 0 < m.toNat) :
    UnpackedFloat.unpack .binary64 (packComponents .binary64 s 0#11 m) =
      .finite s m.toNat ((0 : ℕ) - unitExponent) hm := by
  have hmantissa : m ≠ 0#52 := fun h ↦ hm.ne' (congrArg BitVec.toNat h)
  delta UnpackedFloat.unpack
  simp only [unpackExponent_packComponents, unpackMantissa_packComponents,
    unpackSign_packComponents, Sign.ofBitVec_toBitVec]
  rw [if_neg (by decide), if_pos trivial, dif_neg hmantissa]
  rfl

private theorem toNat_one_append (m : BitVec 52) : (1#1 ++ m).toNat = 2 ^ 52 + m.toNat := by
  rw [BitVec.toNat_append, ← Nat.shiftLeft_add_eq_or_of_lt m.isLt]
  rfl

/-- A normal pattern holds its mantissa with the implicit digit, doubled as often as its exponent
field is above one. -/
private theorem unpack_packComponents_normal (s : Sign) {e : BitVec 11} {m : BitVec 52} {k : ℕ}
    (hones : e ≠ -1#11) (hk : e.toNat = k + 1) (hm : 0 < (1#1 ++ m).toNat) :
    UnpackedFloat.unpack .binary64 (packComponents .binary64 s e m) =
      .finite s (1#1 ++ m).toNat (k - unitExponent) hm := by
  have hzero : e ≠ 0#11 := by
    rintro rfl
    cases hk
  have hbias : (Format.binary64.exponentBias + Format.binary64.mantissaBitsWithoutImplicit : ℤ) =
      unitExponent + 1 := rfl
  delta UnpackedFloat.unpack
  simp only [unpackExponent_packComponents, unpackMantissa_packComponents,
    unpackSign_packComponents, Sign.ofBitVec_toBitVec, hbias]
  rw [if_neg hones, if_neg hzero]
  congr 1
  omega

/-- What a finite double holds is zero, or a mantissa and an exponent. -/
theorem unpack_cases_of_isFinite {x : Float} (h : x.isFinite) :
    (∃ s, x.toModel.unpack = .zero s ∧ units (magnitudeBits x) = 0) ∨
      ∃ (s : Sign) (m k : ℕ) (hm : 0 < m),
        x.toModel.unpack = .finite s m (k - unitExponent) hm ∧ HasParts x s m k := by
  obtain ⟨s, e, m, he, hx⟩ := exists_fields h
  have hunpack : x.toModel.unpack =
      UnpackedFloat.unpack .binary64 (packComponents .binary64 s e m) := by
    rw [← hx]
    rfl
  have hmagnitude := magnitudeBits_of_fields hx
  have hnegative := isNegative_of_fields hx
  have hm : m.toNat < 2 ^ 52 := m.isLt
  rw [hunpack]
  by_cases hzero : e.toNat = 0
  · have hbits : units (magnitudeBits x) = m.toNat := by
      rw [hmagnitude, hzero, Nat.zero_mul, Nat.zero_add, units_of_lt (by omega)]
    obtain rfl : e = 0#11 := BitVec.eq_of_toNat_eq hzero
    rcases Nat.eq_zero_or_pos m.toNat with hmantissa | hpos
    · obtain rfl : m = 0#52 := BitVec.eq_of_toNat_eq hmantissa
      exact .inl ⟨s, unpack_packComponents_zero s, hbits⟩
    · refine .inr ⟨s, m.toNat, 0, hpos, unpack_packComponents_subnormal s hpos, hnegative, ?_,
        by omega, by omega⟩
      rw [hbits, Nat.pow_zero, Nat.mul_one]
  · have hones : e.toNat ≠ 2047 := fun h ↦ he (BitVec.eq_of_toNat_eq h)
    have hfield : e.toNat < 2048 := e.isLt
    have himplicit := toNat_one_append m
    obtain ⟨k, hk⟩ := Nat.exists_eq_add_one_of_ne_zero hzero
    have hpos : 0 < (1#1 ++ m).toNat := by omega
    refine .inr ⟨s, (1#1 ++ m).toNat, k, hpos, unpack_packComponents_normal s he hk hpos,
      hnegative, ?_, by omega, by omega⟩
    rw [hmagnitude, hk, units_field k (Nat.le_of_lt hm), himplicit]

/-! ### The number that is denoted -/

/-- A magnitude with a sign. -/
def signed (negative : Bool) (q : ℚ) : ℚ :=
  if negative then -q else q

/-- The number that a mantissa and an exponent denote; infinities and what is no number denote
zero. -/
def unpackedValue : UnpackedFloat → ℚ
  | .finite s m e _ => s.apply m * 2 ^ e
  | .zero _ => 0
  | .infinity _ => 0
  | .notANumber => 0

/-- The rational number that a finite double denotes. -/
def exactValue (x : Float) : ℚ :=
  unpackedValue x.toModel.unpack

theorem signed_zero (negative : Bool) : signed negative 0 = 0 := by
  cases negative <;> simp [signed]

/-- Two magnitudes with one sign are as far apart as without it. -/
theorem abs_signed_sub_signed (negative : Bool) (p q : ℚ) :
    |signed negative p - signed negative q| = |p - q| := by
  cases negative with
  | false => rfl
  | true => rw [signed, signed, if_pos rfl, if_pos rfl, neg_sub_neg, abs_sub_comm]

/-- A mantissa with an exponent, in units. -/
private theorem unpackedValue_finite (s : Sign) {m k : ℕ} (hm : 0 < m) :
    unpackedValue (.finite s m (k - unitExponent) hm) =
      signed (s.toBitVec.toNat = 1) ((m * 2 ^ k : ℕ) / 2 ^ unitExponent) := by
  have hvalue : (m : ℚ) * 2 ^ ((k : ℤ) - unitExponent) = (m * 2 ^ k : ℕ) / 2 ^ unitExponent := by
    rw [zpow_sub₀ two_ne_zero, zpow_natCast, zpow_natCast, Nat.cast_mul, Nat.cast_pow,
      Nat.cast_ofNat, mul_div_assoc]
  rw [← hvalue]
  cases s with
  | positive => rfl
  | negative => simp [unpackedValue, Sign.apply, Sign.toBitVec, signed]

/-- A finite double denotes its units, with its sign. -/
theorem exactValue_eq {x : Float} (h : x.isFinite) :
    exactValue x = signed (isNegative x) (units (magnitudeBits x) / 2 ^ unitExponent) := by
  rcases unpack_cases_of_isFinite h with ⟨s, hunpack, hunits⟩ | ⟨s, m, k, hm, hunpack, hbits⟩
  · rw [exactValue, hunpack, hunits, Nat.cast_zero, zero_div, signed_zero]
    rfl
  · rw [exactValue, hunpack, unpackedValue_finite, hbits.negative, hbits.units]

end DeskCalculator.Number
