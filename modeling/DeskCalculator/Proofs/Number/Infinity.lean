import DeskCalculator.Proofs.Number.Division

/-!
# Numbers that are not finite

An operand that is infinite or no number makes the result so as well, with one exception: a finite
number divided by an infinity is zero. A change of sign makes no number infinite and none finite.
-/

namespace DeskCalculator.Number

open Float.Model UnpackedFloat

/-! ### Unpacked numbers -/

section

variable {u v : UnpackedFloat}

private theorem isFinite_of_isFinite_add_unpacked (h : (UnpackedFloat.add .binary64 u v).isFinite) :
    u.isFinite ∧ v.isFinite := by
  cases u with
  | notANumber => cases h
  | infinity s =>
    cases v with
    | infinity t => cases s <;> cases t <;> cases h
    | _ => cases h
  | zero s =>
    cases v with
    | zero t => exact ⟨rfl, rfl⟩
    | finite t n f hn => exact ⟨rfl, rfl⟩
    | _ => cases h
  | finite s m e hm =>
    cases v with
    | zero t => exact ⟨rfl, rfl⟩
    | finite t n f hn => exact ⟨rfl, rfl⟩
    | _ => cases h

private theorem isFinite_of_isFinite_sub_unpacked (h : (UnpackedFloat.sub .binary64 u v).isFinite) :
    u.isFinite ∧ v.isFinite := by
  cases u with
  | notANumber => cases h
  | infinity s =>
    cases v with
    | infinity t => cases s <;> cases t <;> cases h
    | _ => cases h
  | zero s =>
    cases v with
    | zero t => exact ⟨rfl, rfl⟩
    | finite t n f hn => exact ⟨rfl, rfl⟩
    | _ => cases h
  | finite s m e hm =>
    cases v with
    | zero t => exact ⟨rfl, rfl⟩
    | finite t n f hn => exact ⟨rfl, rfl⟩
    | _ => cases h

private theorem isFinite_of_isFinite_mul_unpacked (h : (UnpackedFloat.mul .binary64 u v).isFinite) :
    u.isFinite ∧ v.isFinite := by
  cases u with
  | notANumber => cases h
  | infinity s => cases v <;> cases h
  | zero s =>
    cases v with
    | zero t => exact ⟨rfl, rfl⟩
    | finite t n f hn => exact ⟨rfl, rfl⟩
    | _ => cases h
  | finite s m e hm =>
    cases v with
    | zero t => exact ⟨rfl, rfl⟩
    | finite t n f hn => exact ⟨rfl, rfl⟩
    | _ => cases h

/-- A quotient forgets an infinite divisor: it is zero. -/
private theorem isFinite_of_isFinite_div_unpacked (h : (UnpackedFloat.div .binary64 u v).isFinite) :
    u.isFinite ∧ (v.isFinite ∨ ∃ s, UnpackedFloat.div .binary64 u v = .zero s) := by
  cases u with
  | notANumber => cases h
  | infinity s => cases v <;> cases h
  | zero s =>
    cases v with
    | notANumber => cases h
    | infinity t => exact ⟨rfl, .inr ⟨_, rfl⟩⟩
    | _ => exact ⟨rfl, .inl rfl⟩
  | finite s m e hm =>
    cases v with
    | notANumber => cases h
    | infinity t => exact ⟨rfl, .inr ⟨_, rfl⟩⟩
    | _ => exact ⟨rfl, .inl rfl⟩

/-- Packing makes nothing finite. -/
theorem isFinite_of_isFinite_pack (h : (Float.Model.pack u).isFinite) : u.isFinite := by
  cases u with
  | notANumber => cases h
  | infinity s => cases s <;> cases h
  | zero s => rfl
  | finite s m e hm => rfl

end

/-! ### Bit patterns -/

/-- What a bit pattern holds: nothing finite if its exponent field is all ones, and a number in the
range of doubles otherwise. -/
theorem unpack_cases (b : BitVec Format.binary64.numBits) :
    (unpackExponent b = -1#11 ∧ (UnpackedFloat.unpack .binary64 b).isFinite = false) ∨
      (∃ s, UnpackedFloat.unpack .binary64 b = .zero s) ∨
      ∃ s m e hm, UnpackedFloat.unpack .binary64 b = .finite s m e hm ∧ e ≤ 971 := by
  have hbias : (Format.binary64.exponentBias + Format.binary64.mantissaBitsWithoutImplicit : Int) =
      1075 := rfl
  delta UnpackedFloat.unpack
  dsimp only
  rw [hbias]
  by_cases hones : unpackExponent b = -1#11
  · refine .inl ⟨hones, ?_⟩
    rw [if_pos hones]
    by_cases hmantissa : unpackMantissa b = 0#52
    · rw [if_pos hmantissa]
      rfl
    · rw [if_neg hmantissa]
      rfl
  · have hfield : (unpackExponent b).toNat < 2048 := BitVec.isLt _
    have hbelow : (unpackExponent b).toNat ≠ 2047 := fun heq ↦ hones (BitVec.eq_of_toNat_eq heq)
    right
    rw [if_neg hones]
    by_cases hzero : unpackExponent b = 0#11
    · rw [if_pos hzero]
      by_cases hmantissa : unpackMantissa b = 0#52
      · rw [dif_pos hmantissa]
        exact .inl ⟨_, rfl⟩
      · rw [dif_neg hmantissa]
        exact .inr ⟨_, _, _, _, rfl, by rw [hzero]; decide⟩
    · rw [if_neg hzero]
      exact .inr ⟨_, _, _, _, rfl, by omega⟩

/-- A bit pattern whose exponent field is not all ones holds something finite. -/
theorem isFinite_unpack {b : BitVec Format.binary64.numBits} (h : unpackExponent b ≠ -1#11) :
    (UnpackedFloat.unpack .binary64 b).isFinite := by
  rcases unpack_cases b with ⟨hones, -⟩ | ⟨s, hb⟩ | ⟨s, m, e, hm, hb, -⟩
  · exact absurd hones h
  · rw [hb]
    rfl
  · rw [hb]
    rfl

/-- The exponent of what a double holds. -/
private theorem exponent_le_of_unpack {b : BitVec Format.binary64.numBits} {s : Sign} {m : Nat}
    {e : Int} {hm : 0 < m} (h : UnpackedFloat.unpack .binary64 b = .finite s m e hm) : e ≤ 971 := by
  rcases unpack_cases b with ⟨-, hb⟩ | ⟨s, hb⟩ | ⟨s, m, e, hm, hb, he⟩
  · rw [h] at hb
    cases hb
  · rw [h] at hb
    cases hb
  · rw [h] at hb
    cases hb
    exact he

/-- A number in the range of doubles is finite when it is packed. -/
theorem isFinite_pack_of_exponent_le {s : Sign} {m : Nat} {e : Int} (hm : 0 < m) (he : e ≤ 971) :
    (Float.Model.pack (.finite s m e hm)).isFinite := by
  have hbiased : (e + Format.binary64.exponentBias +
      Format.binary64.mantissaBitsWithoutImplicit).toNat ≤ 2046 := by
    change (e + (1023 : Nat) + (52 : Nat)).toNat ≤ 2046
    omega
  have hfield {n : Nat} (hn : n ≤ 2046) : BitVec.ofNat 11 n ≠ -1#11 := by
    intro heq
    have hvalue := congrArg BitVec.toNat heq
    rw [BitVec.toNat_ofNat] at hvalue
    change n % 2048 = 2047 at hvalue
    omega
  apply isFinite_unpack
  change unpackExponent (UnpackedFloat.pack .binary64 _) ≠ _
  delta UnpackedFloat.pack
  dsimp only
  generalize (e + Format.binary64.exponentBias +
      Format.binary64.mantissaBitsWithoutImplicit : Int).toNat = n at hbiased ⊢
  have hrange : ¬ 2 ^ Format.binary64.exponentBits ≤ n + 1 := by
    change ¬ 2048 ≤ n + 1
    omega
  rw [if_neg hrange]
  split
  · rw [unpackExponent_packComponents]
    exact hfield hbiased
  · rw [unpackExponent_packComponents]
    exact hfield (Nat.zero_le _)

/-! ### Doubles -/

variable {x y : Float}

/-- A change of sign makes no number infinite and none finite. -/
theorem isFinite_neg (x : Float) : (-x).isFinite = x.isFinite := by
  have hneg : (-x).isFinite = (Float.Model.pack x.toModel.unpack.neg).isFinite := rfl
  have hx : x.isFinite = x.toModel.unpack.isFinite := rfl
  rw [hneg, hx]
  cases hu : x.toModel.unpack with
  | notANumber => rfl
  | infinity s => cases s <;> rfl
  | zero s => cases s <;> rfl
  | finite s m e hm => exact isFinite_pack_of_exponent_le hm (exponent_le_of_unpack hu)

/-- What is finite is not infinite. -/
theorem isInf_eq_false_of_isFinite (h : x.isFinite) : x.isInf = false := by
  have hfinite : x.toModel.unpack.isFinite := h
  change x.toModel.unpack.isInf = false
  cases hu : x.toModel.unpack with
  | infinity s =>
    rw [hu] at hfinite
    cases hfinite
  | _ => rfl

/-- The terms of a finite sum are finite. -/
theorem isFinite_of_isFinite_add (h : (x + y).isFinite) : x.isFinite ∧ y.isFinite :=
  isFinite_of_isFinite_add_unpacked (isFinite_of_isFinite_pack h)

/-- The terms of a finite difference are finite. -/
theorem isFinite_of_isFinite_sub (h : (x - y).isFinite) : x.isFinite ∧ y.isFinite :=
  isFinite_of_isFinite_sub_unpacked (isFinite_of_isFinite_pack h)

/-- The factors of a finite product are finite. -/
theorem isFinite_of_isFinite_mul (h : (x * y).isFinite) : x.isFinite ∧ y.isFinite :=
  isFinite_of_isFinite_mul_unpacked (isFinite_of_isFinite_pack h)

/-- The dividend of a finite quotient is finite, and so is the divisor, unless the quotient is
zero. -/
theorem isFinite_of_isFinite_div (h : (x / y).isFinite) :
    x.isFinite ∧ (y.isFinite ∨ x / y == 0) := by
  obtain ⟨hx, hy⟩ := isFinite_of_isFinite_div_unpacked (isFinite_of_isFinite_pack h)
  refine ⟨hx, hy.imp_right ?_⟩
  rintro ⟨s, hs⟩
  have hquotient : x / y = ⟨pack (.div .binary64 x.toModel.unpack y.toModel.unpack)⟩ := rfl
  rw [hquotient, hs]
  cases s <;> rfl

end DeskCalculator.Number
