import DeskCalculator.Proofs.Number.Display
import DeskCalculator.Proofs.Number.Infinity
import Mathlib

/-!
# Sign and magnitude

The bits of a double are a sign, an exponent field and a mantissa, and the last two are the pattern
of its magnitude. A finite double is made of any sign and any pattern below that of infinity, and a
change of sign keeps the pattern. There is one double that is no number, so every double is known by
its sign and its magnitude.
-/

namespace DeskCalculator.Number

open Float.Model UnpackedFloat

/-! ### Bit patterns -/

section

variable (s : Sign) (e : BitVec Format.binary64.exponentBits)
  (m : BitVec Format.binary64.mantissaBitsWithoutImplicit)

/-- The three fields of a bit pattern as a number. -/
private theorem toNat_packComponents :
    (packComponents .binary64 s e m).toNat =
      s.toBitVec.toNat * 2 ^ 63 + (e.toNat * 2 ^ 52 + m.toNat) := by
  have hm : m.toNat < 2 ^ 52 := m.isLt
  have hinner : (s.toBitVec ++ e).toNat = s.toBitVec.toNat * 2 ^ 11 + e.toNat := by
    rw [BitVec.toNat_append, ← Nat.shiftLeft_add_eq_or_of_lt e.isLt, Nat.shiftLeft_eq]
  rw [packComponents, BitVec.toNat_append, ← Nat.shiftLeft_add_eq_or_of_lt m.isLt, Nat.shiftLeft_eq,
    hinner]
  change (s.toBitVec.toNat * 2 ^ 11 + e.toNat) * 2 ^ 52 + m.toNat = _
  omega

/-- The opposite sign holds the opposite number. -/
private theorem unpack_packComponents_neg :
    UnpackedFloat.unpack .binary64 (packComponents .binary64 (-s) e m) =
      (UnpackedFloat.unpack .binary64 (packComponents .binary64 s e m)).neg := by
  delta UnpackedFloat.unpack
  dsimp only
  simp only [unpackExponent_packComponents, unpackMantissa_packComponents,
    unpackSign_packComponents, Sign.ofBitVec_toBitVec]
  split
  · split
    · rfl
    · rfl
  · split
    · split
      · rfl
      · rfl
    · rfl

end

/-- A bit pattern whose exponent field is not all ones is packed as it was. -/
theorem pack_unpack_of_unpackExponent_ne {b : BitVec Format.binary64.numBits}
    (h : unpackExponent b ≠ -1#11) :
    UnpackedFloat.pack .binary64 (UnpackedFloat.unpack .binary64 b) = b := by
  rw [pack_unpack, if_neg]
  simpa [isNaNBits] using fun hones ↦ absurd hones h

/-! ### Doubles -/

section

variable {x : Float} {s : Sign} {e : BitVec Format.binary64.exponentBits}
  {m : BitVec Format.binary64.mantissaBitsWithoutImplicit}

/-- The bit pattern of a finite double has three fields. -/
theorem exists_fields (h : x.isFinite) :
    ∃ s e m, e ≠ -1#11 ∧ x.toBits.toBitVec = packComponents .binary64 s e m :=
  ⟨_, _, _, unpackExponent_ne_of_isFinite h,
    (@packComponents_unpackSign_unpackExponent_unpackMantissa .binary64 x.toBits.toBitVec).symm⟩

private theorem toNat_of_fields (h : x.toBits.toBitVec = packComponents .binary64 s e m) :
    x.toBits.toNat = s.toBitVec.toNat * 2 ^ 63 + (e.toNat * 2 ^ 52 + m.toNat) := by
  rw [← toNat_packComponents, ← h, UInt64.toNat_toBitVec]

/-- The exponent field and the mantissa are the magnitude. -/
theorem magnitudeBits_of_fields (h : x.toBits.toBitVec = packComponents .binary64 s e m) :
    magnitudeBits x = e.toNat * 2 ^ 52 + m.toNat := by
  have he : e.toNat < 2 ^ 11 := e.isLt
  have hm : m.toNat < 2 ^ 52 := m.isLt
  have hbits := toNat_of_fields h
  unfold magnitudeBits
  omega

theorem isNegative_of_fields (h : x.toBits.toBitVec = packComponents .binary64 s e m) :
    isNegative x = decide (s.toBitVec.toNat = 1) := by
  have hs : s.toBitVec.toNat < 2 ^ 1 := s.toBitVec.isLt
  have he : e.toNat < 2 ^ 11 := e.isLt
  have hm : m.toNat < 2 ^ 52 := m.isLt
  have hbits := toNat_of_fields h
  rw [isNegative, decide_eq_decide]
  omega

/-- A double with a magnitude below that of infinity is finite. -/
theorem isFinite_of_magnitudeBits_lt (h : magnitudeBits x < infinityBits) : x.isFinite :=
  isFinite_unpack fun hones ↦ Nat.not_le_of_lt h ((unpackExponent_eq_iff x.toBits).mp hones)

/-- A change of sign changes the sign field. -/
theorem fields_neg (he : e ≠ -1#11) (h : x.toBits.toBitVec = packComponents .binary64 s e m) :
    (-x).toBits.toBitVec = packComponents .binary64 (-s) e m := by
  have hneg : (-x).toBits.toBitVec =
      UnpackedFloat.pack .binary64 (UnpackedFloat.unpack .binary64 x.toBits.toBitVec).neg := rfl
  rw [hneg, h, ← unpack_packComponents_neg, pack_unpack_of_unpackExponent_ne]
  rwa [unpackExponent_packComponents]

/-- A change of sign keeps the magnitude of a finite double. -/
theorem magnitudeBits_neg (h : x.isFinite) : magnitudeBits (-x) = magnitudeBits x := by
  obtain ⟨s, e, m, he, hx⟩ := exists_fields h
  rw [magnitudeBits_of_fields hx, magnitudeBits_of_fields (fields_neg he hx)]

theorem isNegative_neg (h : x.isFinite) : isNegative (-x) = !isNegative x := by
  obtain ⟨s, e, m, he, hx⟩ := exists_fields h
  rw [isNegative_of_fields hx, isNegative_of_fields (fields_neg he hx)]
  cases s <;> rfl

/-- A double is its bits. -/
theorem eq_of_toBits_eq {x y : Float} (h : x.toBits.toNat = y.toBits.toNat) : x = y := by
  have hmodel : x.toModel = y.toModel :=
    (Float.Model.mk.injEq ..).mpr (UInt64.toNat_inj.mp h)
  exact congrArg Float.ofModel hmodel

/-- A finite double whose sign is changed twice is the double itself. -/
theorem neg_neg_of_isFinite (h : x.isFinite) : - -x = x := by
  obtain ⟨s, e, m, he, hx⟩ := exists_fields h
  have hbits : (- -x).toBits.toBitVec = x.toBits.toBitVec := by
    rw [fields_neg he (fields_neg he hx), hx]
    cases s <;> rfl
  exact eq_of_toBits_eq (congrArg BitVec.toNat hbits)

end

/-! ### Doubles of a sign and a magnitude -/

section

variable {bits : Nat}

/-- The bit pattern that a double is made of is its bit pattern, if that is a finite number's. -/
theorem toBits_ofMagnitude (negative : Bool) (h : bits < infinityBits) :
    (ofMagnitude negative bits).toBits.toNat = if negative then bits + 2 ^ 63 else bits := by
  have hvalue : (UInt64.ofNat (if negative then bits + 2 ^ 63 else bits)).toNat =
      if negative then bits + 2 ^ 63 else bits := by
    apply UInt64.toNat_ofNat_of_lt
    unfold infinityBits at h
    change _ < 18446744073709551616
    split <;> omega
  have hpack : (ofMagnitude negative bits).toBits.toBitVec = UnpackedFloat.pack .binary64
      (UnpackedFloat.unpack .binary64
        (UInt64.ofNat (if negative then bits + 2 ^ 63 else bits)).toBitVec) := rfl
  rw [← UInt64.toNat_toBitVec, hpack, pack_unpack_of_unpackExponent_ne, UInt64.toNat_toBitVec,
    hvalue]
  rw [Ne, unpackExponent_eq_iff, hvalue, Nat.not_le]
  unfold infinityBits at h ⊢
  split <;> omega

theorem magnitudeBits_ofMagnitude (negative : Bool) (h : bits < infinityBits) :
    magnitudeBits (ofMagnitude negative bits) = bits := by
  rw [magnitudeBits, toBits_ofMagnitude negative h]
  unfold infinityBits at h
  split <;> omega

theorem isNegative_ofMagnitude (negative : Bool) (h : bits < infinityBits) :
    isNegative (ofMagnitude negative bits) = negative := by
  rw [isNegative, toBits_ofMagnitude negative h]
  unfold infinityBits at h
  cases negative with
  | false =>
    rw [if_neg (by decide), decide_eq_false_iff_not]
    omega
  | true =>
    rw [if_pos rfl, decide_eq_true_eq]
    omega

end

/-! ### Doubles by their patterns -/

/-- A double is determined by its sign and its magnitude. -/
theorem eq_of_magnitudeBits_eq {x y : Float} (hnegative : isNegative x = isNegative y)
    (h : magnitudeBits x = magnitudeBits y) : x = y := by
  apply eq_of_toBits_eq
  have hx := x.toBits.toNat_lt
  have hy := y.toBits.toNat_lt
  rw [isNegative, isNegative, decide_eq_decide] at hnegative
  rw [magnitudeBits, magnitudeBits] at h
  omega

/-- A double that is a number is made of its sign and its magnitude. -/
theorem ofMagnitude_magnitudeBits {x : Float} (h : magnitudeBits x ≤ infinityBits) :
    ofMagnitude (isNegative x) (magnitudeBits x) = x := by
  rcases Nat.lt_or_eq_of_le h with hfinite | hinfinite
  · exact eq_of_magnitudeBits_eq (isNegative_ofMagnitude _ hfinite)
      (magnitudeBits_ofMagnitude _ hfinite)
  · apply eq_of_magnitudeBits_eq
    · rw [hinfinite]
      cases isNegative x <;> decide +kernel
    · rw [hinfinite]
      cases isNegative x <;> decide +kernel

/-- There is one double that is no number. -/
theorem eq_nan {x : Float} (h : infinityBits < magnitudeBits x) : x = 0.0 / 0.0 := by
  have hfields :=
    (@packComponents_unpackSign_unpackExponent_unpackMantissa .binary64 x.toBits.toBitVec).symm
  have hones : @unpackExponent Format.binary64 x.toBits.toBitVec = -1#11 :=
    (unpackExponent_eq_iff x.toBits).mpr (Nat.le_of_lt h)
  have hmantissa : @unpackMantissa Format.binary64 x.toBits.toBitVec ≠ 0#52 := by
    intro hzero
    have hmagnitude := magnitudeBits_of_fields hfields
    rw [hones, hzero] at hmagnitude
    exact Nat.ne_of_gt h hmagnitude
  have hbits : x.toBits.toBitVec = packedNaN .binary64 :=
    x.toModel.valid.eq_packedNaN hones hmantissa
  have hnan : (0.0 / 0.0 : Float).toBits.toBitVec = packedNaN .binary64 := by decide +kernel
  apply eq_of_toBits_eq
  rw [← UInt64.toNat_toBitVec, ← UInt64.toNat_toBitVec, hbits, hnan]

end DeskCalculator.Number
