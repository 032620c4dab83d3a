import DeskCalculator.Proofs.Number.Range

/-!
# Differences in range

Rounding does not go beyond the greatest double, because that is a whole multiple of every unit that
a smaller number is rounded to. So the difference of two finite doubles of one sign is finite, and a
factor or divisor that is not negative leaves a number its sign. A difference that is not finite is
infinite, and so has the magnitude of infinity.
-/

namespace DeskCalculator.Number

open Float.Model UnpackedFloat

/-! ### Rounding below the greatest double -/

/-- The greatest mantissa of a double. -/
def greatestMantissa : ℕ := 2 ^ 53 - 1

/-- Zeros are shifted out without loss. -/
private theorem shiftRight_mul_two_pow (m n : ℕ) :
    ((⟨m * 2 ^ n, false, false⟩ : ExtendedMantissa) >>> n) = ⟨m, false, false⟩ := by
  change n.repeat ExtendedMantissa.shiftRightOne _ = _
  induction n generalizing m with
  | zero => rw [Nat.pow_zero, Nat.mul_one, Nat.repeat]
  | succ n ih =>
    have hdouble : m * 2 ^ (n + 1) = 2 * m * 2 ^ n := by rw [Nat.pow_succ]; ring
    rw [Nat.repeat, hdouble, ih, ExtendedMantissa.shiftRightOne]
    simp

/-- What is not above a whole multiple of the unit is not rounded above it. -/
private theorem roundedMantissa_shiftRight_le {m n b : ℕ} (h : m ≤ b * 2 ^ n) :
    (ExtendedMantissa.ofMantissaAndAccuracy m .exact >>> n).roundedMantissa ≤ b := by
  rcases Nat.eq_or_lt_of_le h with rfl | hlt
  · rw [ExtendedMantissa.ofMantissaAndAccuracy, shiftRight_mul_two_pow]
    exact Nat.le_refl b
  · have hquotient : m / 2 ^ n < b := (Nat.div_lt_iff_lt_mul (Nat.two_pow_pos n)).mpr hlt
    have hrounded := roundedMantissa_le (ExtendedMantissa.ofMantissaAndAccuracy m .exact >>> n)
    rw [mantissa_shiftRight, mantissa_ofMantissaAndAccuracy] at hrounded
    omega

section

variable {m : ℕ} {e : ℤ}

/-- What is not above the greatest double has its leading digit in range. -/
theorem totalExponent_le (he : e ≤ 971) (h : m ≤ greatestMantissa * 2 ^ (971 - e).toNat) :
    totalExponent m e ≤ 1024 := by
  rw [totalExponent]
  rcases Nat.eq_zero_or_pos m with rfl | hpos
  · rw [Nat.log2_zero]
    omega
  · obtain ⟨n, hn⟩ : ∃ n, (971 - e).toNat = n := ⟨_, rfl⟩
    rw [hn] at h
    have hlt : m < 2 ^ (53 + n) := by
      rw [Nat.pow_add]
      exact Nat.lt_of_le_of_lt h
        (Nat.mul_lt_mul_of_pos_right (by decide) (Nat.two_pow_pos n))
    have hlog : m.log2 < 53 + n := (Nat.log2_lt hpos.ne').mpr hlt
    omega

/-- Rounding does not go beyond the greatest double. -/
private theorem isFinite_pack_roundWithAccuracy_of_le (s : Sign) (he : e ≤ 971)
    (h : m ≤ greatestMantissa * 2 ^ (971 - e).toNat) :
    (Float.Model.pack (roundWithAccuracy .binary64 s m e .exact)).isFinite := by
  have htotal := totalExponent_le he h
  by_cases hbelow : e ≤ 970 ∧ totalExponent m e ≤ 1023
  · exact isFinite_pack_roundWithAccuracy _ s hbelow.1 hbelow.2
  -- at the top of the range the unit is that of the greatest double
  obtain ⟨first, hfirst⟩ : ∃ r, shiftToTargetExponent .binary64 m e .exact = r := ⟨_, rfl⟩
  have hexponent : first.2 = 971 := by
    rw [← hfirst, exponent_shiftToTargetExponent]
    omega
  have hshift : first.1 = ExtendedMantissa.ofMantissaAndAccuracy m .exact >>> (971 - e).toNat := by
    have hamount : (Format.binary64.targetExponent (totalExponent m e) - e).toNat =
        (971 - e).toNat := by
      rw [targetExponent_eq]
      omega
    rw [← hamount, ← hfirst]
    rfl
  have hrounded : first.1.roundedMantissa ≤ greatestMantissa := by
    rw [hshift]
    exact roundedMantissa_shiftRight_le h
  obtain ⟨last, hlast⟩ :
      ∃ r, shiftToTargetExponent .binary64 first.1.roundedMantissa first.2 .exact = r := ⟨_, rfl⟩
  have hfinal : last.2 ≤ 971 := by
    have hlast_total : totalExponent first.1.roundedMantissa 971 ≤ 1024 := by
      refine totalExponent_le (by decide) ?_
      rw [sub_self, Int.toNat_zero, Nat.pow_zero, Nat.mul_one]
      exact hrounded
    rw [← hlast, exponent_shiftToTargetExponent, hexponent]
    omega
  rw [roundWithAccuracy, hfirst]
  dsimp only
  rw [hlast]
  split
  · exact isFinite_pack_zero s
  · exact isFinite_pack_of_exponent_le _ hfinal

/-- The same for a mantissa that is given more digits first. -/
theorem isFinite_pack_round (s : Sign) (he : e ≤ 971)
    (h : m ≤ greatestMantissa * 2 ^ (971 - e).toNat) :
    (Float.Model.pack (UnpackedFloat.round .binary64 s m e)).isFinite := by
  obtain ⟨t, ht⟩ : ∃ t, Format.binary64.targetExponent (totalExponent m e) = t := ⟨_, rfl⟩
  rw [UnpackedFloat.round, decreaseExponent, ht]
  dsimp only
  obtain ⟨n, hn⟩ : ∃ n, (e - t).toNat = n := ⟨_, rfl⟩
  have hroom : (971 - (e - n)).toNat = (971 - e).toNat + n := by omega
  rw [hn, Nat.shiftLeft_eq]
  refine isFinite_pack_roundWithAccuracy_of_le s (by omega) ?_
  rw [hroom, Nat.pow_add, ← Nat.mul_assoc]
  exact Nat.mul_le_mul_right _ h

/-- What is rounded is a number. -/
theorem isNaN_roundWithAccuracy (s : Sign) (m : ℕ) (e : ℤ) (accuracy : Accuracy) :
    (roundWithAccuracy .binary64 s m e accuracy).isNaN = false := by
  rw [roundWithAccuracy]
  dsimp only
  split
  · rfl
  · rfl

/-- A number with a sign stays in range as well. -/
private theorem isFinite_pack_normalize {z : ℤ} (he : e ≤ 971)
    (h : z.natAbs ≤ greatestMantissa * 2 ^ (971 - e).toNat) :
    (Float.Model.pack (UnpackedFloat.normalize .binary64 z e .positive)).isFinite := by
  rw [UnpackedFloat.normalize]
  split
  · exact isFinite_pack_round .negative he (by omega)
  · exact isFinite_pack_zero .positive
  · exact isFinite_pack_round .positive he (by omega)

end

/-! ### Differences -/

section

variable {x y : Float}

private theorem sub_eq (x y : Float) :
    x - y = ⟨Float.Model.pack (.sub .binary64 x.toModel.unpack y.toModel.unpack)⟩ := rfl

/-- A mantissa with its unit made smaller is still not above the greatest double. -/
theorem shiftLeft_le_greatest {m : ℕ} {k e : ℤ} (hm : m < 2 ^ 53) (hk : k ≤ 971) :
    m <<< (k - e).toNat ≤ greatestMantissa * 2 ^ (971 - e).toNat := by
  rw [Nat.shiftLeft_eq]
  exact Nat.mul_le_mul (Nat.le_sub_one_of_lt hm) (Nat.pow_le_pow_right (by decide) (by omega))

/-- Two mantissas of one sign differ by the greater one at most. -/
private theorem natAbs_apply_sub_le (s : Sign) {m n b : ℕ} (hm : m ≤ b) (hn : n ≤ b) :
    (s.apply m - s.apply n).natAbs ≤ b := by
  cases s with
  | negative =>
    change (-(m : ℤ) - -n).natAbs ≤ b
    omega
  | positive =>
    change ((m : ℤ) - n).natAbs ≤ b
    omega

/-- The difference of finite doubles of one sign is finite. -/
theorem isFinite_sub (hx : x.isFinite) (hy : y.isFinite) (h : isNegative x = isNegative y) :
    (x - y).isFinite := by
  have hunit : (unitExponent : ℤ) = 1074 := rfl
  rw [sub_eq]
  rcases unpack_cases_of_isFinite hx with ⟨s, hxunpack, -⟩ | ⟨s, m, k, hm, hxunpack, hxparts⟩
  · rcases unpack_cases_of_isFinite hy with ⟨t, hyunpack, -⟩ | ⟨t, n, l, hn, hyunpack, hyparts⟩
    · rw [hxunpack, hyunpack]
      cases s <;> cases t <;> rfl
    · have hl := hyparts.doublings_le
      rw [hxunpack, hyunpack]
      exact isFinite_pack_of_exponent_le _ (by omega)
  · have hk := hxparts.doublings_le
    rcases unpack_cases_of_isFinite hy with ⟨t, hyunpack, -⟩ | ⟨t, n, l, hn, hyunpack, hyparts⟩
    · rw [hxunpack, hyunpack]
      exact isFinite_pack_of_exponent_le _ (by omega)
    · have hl := hyparts.doublings_le
      obtain rfl : s = t := by
        rw [hxparts.negative, hyparts.negative] at h
        cases s with
        | negative => cases t with
          | negative => rfl
          | positive => cases h
        | positive => cases t with
          | negative => cases h
          | positive => rfl
      -- both mantissas in the smaller one of their units
      obtain ⟨e, he⟩ : ∃ e : ℤ, min ((k : ℤ) - unitExponent) (l - unitExponent) = e := ⟨_, rfl⟩
      have hleft : m <<< (k - unitExponent - e).toNat ≤ greatestMantissa * 2 ^ (971 - e).toNat :=
        shiftLeft_le_greatest hxparts.mantissa_lt (by omega)
      have hright : n <<< (l - unitExponent - e).toNat ≤ greatestMantissa * 2 ^ (971 - e).toNat :=
        shiftLeft_le_greatest hyparts.mantissa_lt (by omega)
      rw [hxunpack, hyunpack, UnpackedFloat.sub]
      dsimp only [decreaseExponent]
      rw [he]
      exact isFinite_pack_normalize (by omega) (natAbs_apply_sub_le s hleft hright)

/-- The difference of finite doubles is finite or infinite. -/
theorem isFinite_or_isInf_sub (hx : x.isFinite) (hy : y.isFinite) :
    (x - y).isFinite ∨ (x - y).isInf := by
  rw [sub_eq]
  apply isFinite_or_isInf_pack
  rcases unpack_cases_of_isFinite hx with ⟨s, hxunpack, -⟩ | ⟨s, m, k, hm, hxunpack, -⟩
  · rcases unpack_cases_of_isFinite hy with ⟨t, hyunpack, -⟩ | ⟨t, n, l, hn, hyunpack, -⟩
    · rw [hxunpack, hyunpack]
      cases s <;> cases t <;> rfl
    · rw [hxunpack, hyunpack]
      rfl
  · rcases unpack_cases_of_isFinite hy with ⟨t, hyunpack, -⟩ | ⟨t, n, l, hn, hyunpack, -⟩
    · rw [hxunpack, hyunpack]
      rfl
    · rw [hxunpack, hyunpack, UnpackedFloat.sub]
      dsimp only [decreaseExponent]
      rw [UnpackedFloat.normalize]
      split
      · exact isNaN_roundWithAccuracy ..
      · rfl
      · exact isNaN_roundWithAccuracy ..

/-- What is infinite has the magnitude of infinity. -/
theorem magnitudeBits_of_isInf (h : x.isInf) : magnitudeBits x = infinityBits := by
  obtain ⟨s, e, m, hx⟩ : ∃ s e m, x.toBits.toBitVec = packComponents .binary64 s e m :=
    ⟨_, _, _,
      (@packComponents_unpackSign_unpackExponent_unpackMantissa .binary64 x.toBits.toBitVec).symm⟩
  have hunpack : (UnpackedFloat.unpack .binary64 x.toBits.toBitVec).isInf := h
  rw [hx] at hunpack
  delta UnpackedFloat.unpack at hunpack
  simp only [unpackExponent_packComponents, unpackMantissa_packComponents] at hunpack
  split at hunpack
  · next hones =>
    split at hunpack
    · next hzero =>
      rw [magnitudeBits_of_fields hx, hones, hzero]
      rfl
    · cases hunpack
  · split at hunpack
    · split at hunpack
      · cases hunpack
      · cases hunpack
    · cases hunpack

end

/-! ### Signs of products and quotients -/

/-- The sign of what is unpacked; what is no number has none. -/
def signOf : UnpackedFloat → Sign
  | .finite s _ _ _ => s
  | .zero s => s
  | .infinity s => s
  | .notANumber => .positive

/-- The sign field is the sign of what a pattern holds, if that is a number. -/
private theorem signOf_unpack_packComponents (s : Sign) (e : BitVec Format.binary64.exponentBits)
    (m : BitVec Format.binary64.mantissaBitsWithoutImplicit) :
    signOf (UnpackedFloat.unpack .binary64 (packComponents .binary64 s e m)) = s ∨
      signOf (UnpackedFloat.unpack .binary64 (packComponents .binary64 s e m)) = .positive := by
  delta UnpackedFloat.unpack
  simp only [unpackExponent_packComponents, unpackMantissa_packComponents,
    unpackSign_packComponents, Sign.ofBitVec_toBitVec]
  split
  · split
    · exact .inl rfl
    · exact .inr rfl
  · split
    · split
      · exact .inl rfl
      · exact .inl rfl
    · exact .inl rfl

/-- What is packed keeps its sign. -/
theorem exists_pack_eq (u : UnpackedFloat) :
    ∃ e m, UnpackedFloat.pack .binary64 u = packComponents .binary64 (signOf u) e m := by
  cases u with
  | notANumber => exact ⟨_, _, rfl⟩
  | infinity s => exact ⟨_, _, rfl⟩
  | zero s => exact ⟨_, _, rfl⟩
  | finite s m e hm =>
    delta UnpackedFloat.pack
    dsimp only
    split
    · exact ⟨_, _, rfl⟩
    · split
      · exact ⟨_, _, rfl⟩
      · exact ⟨_, _, rfl⟩

/-- What is rounded keeps its sign. -/
theorem signOf_roundWithAccuracy (s : Sign) (m : ℕ) (e : ℤ) (accuracy : Accuracy) :
    signOf (roundWithAccuracy .binary64 s m e accuracy) = s := by
  rw [roundWithAccuracy]
  dsimp only
  split
  · rfl
  · rfl

section

variable {u v : UnpackedFloat}

private theorem signOf_mul (h : (UnpackedFloat.mul .binary64 u v).isFinite) :
    signOf (UnpackedFloat.mul .binary64 u v) = signOf u * signOf v := by
  cases u with
  | notANumber => cases h
  | infinity s => cases v <;> cases h
  | zero s =>
    cases v with
    | zero t => rfl
    | finite t n f hn => rfl
    | _ => cases h
  | finite s m e hm =>
    cases v with
    | zero t => rfl
    | finite t n f hn => exact signOf_roundWithAccuracy ..
    | _ => cases h

private theorem signOf_div (h : (UnpackedFloat.div .binary64 u v).isFinite) :
    signOf (UnpackedFloat.div .binary64 u v) = signOf u / signOf v := by
  cases u with
  | notANumber => cases h
  | infinity s => cases v <;> cases h
  | zero s =>
    cases v with
    | infinity t => rfl
    | finite t n f hn => rfl
    | _ => cases h
  | finite s m e hm =>
    cases v with
    | infinity t => rfl
    | finite t n f hn => exact signOf_roundWithAccuracy ..
    | _ => cases h

end

section

variable {x f : Float}

private theorem isNegative_pack (u : UnpackedFloat) :
    isNegative ⟨Float.Model.pack u⟩ = decide ((signOf u).toBitVec.toNat = 1) := by
  obtain ⟨e, m, hpack⟩ := exists_pack_eq u
  exact isNegative_of_fields hpack

private theorem isNegative_eq_of_isFinite (h : x.isFinite) :
    isNegative x = decide ((signOf x.toModel.unpack).toBitVec.toNat = 1) := by
  obtain ⟨e, m, hpack⟩ := exists_pack_eq x.toModel.unpack
  refine isNegative_of_fields (e := e) (m := m) ?_
  rw [← hpack]
  exact (pack_unpack_of_unpackExponent_ne (unpackExponent_ne_of_isFinite h)).symm

/-- What is not negative has no minus sign when it is unpacked. -/
theorem signOf_unpack_of_isNegative_eq_false (h : isNegative f = false) :
    signOf f.toModel.unpack = .positive := by
  obtain ⟨s, e, m, hf⟩ : ∃ s e m, f.toBits.toBitVec = packComponents .binary64 s e m :=
    ⟨_, _, _,
      (@packComponents_unpackSign_unpackExponent_unpackMantissa .binary64 f.toBits.toBitVec).symm⟩
  have hs : s = .positive := by
    rw [isNegative_of_fields hf] at h
    cases s with
    | negative => cases h
    | positive => rfl
  have hunpack : f.toModel.unpack = UnpackedFloat.unpack .binary64 f.toBits.toBitVec := rfl
  rw [hunpack, hf]
  rcases signOf_unpack_packComponents s e m with heq | heq
  · rw [heq, hs]
  · exact heq

/-- A factor that is not negative keeps the sign. -/
theorem isNegative_mul (hx : x.isFinite) (hf : isNegative f = false) (h : (x * f).isFinite) :
    isNegative (x * f) = isNegative x := by
  have hproduct :
      x * f = ⟨Float.Model.pack (.mul .binary64 x.toModel.unpack f.toModel.unpack)⟩ := rfl
  rw [isNegative_eq_of_isFinite hx, hproduct, isNegative_pack,
    signOf_mul (isFinite_of_isFinite_pack h), signOf_unpack_of_isNegative_eq_false hf]
  cases signOf x.toModel.unpack <;> rfl

/-- So does a divisor. -/
theorem isNegative_div (hx : x.isFinite) (hf : isNegative f = false) (h : (x / f).isFinite) :
    isNegative (x / f) = isNegative x := by
  have hquotient :
      x / f = ⟨Float.Model.pack (.div .binary64 x.toModel.unpack f.toModel.unpack)⟩ := rfl
  rw [isNegative_eq_of_isFinite hx, hquotient, isNegative_pack,
    signOf_div (isFinite_of_isFinite_pack h), signOf_unpack_of_isNegative_eq_false hf]
  cases signOf x.toModel.unpack <;> rfl

end

end DeskCalculator.Number
