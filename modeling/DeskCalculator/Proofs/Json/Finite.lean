import DeskCalculator.Json.Decode
import DeskCalculator.Proofs.Json.Bounded
import DeskCalculator.Proofs.Number.Range

/-!
# Doubles of a read value

Every double that is read from a text is finite. It is read from digits that fit 64 bits, and
scaling them down stays in range; where scaling them up does not, nothing is read.
-/

namespace DeskCalculator.Json

open Number (isFinite_ofDecimal isFinite_ofDecimal_zero le_units_ofDecimal isFinite_div
  isFinite_or_isInf_mul isFinite_neg)

namespace Numeral

/-- Digits are taken only as long as they fit 64 bits. -/
theorem takeDigits_lt {n : Nat} (h : n < 2 ^ 64) (ds : List Char) :
    (takeDigits n ds).1 < 2 ^ 64 := by
  induction ds generalizing n with
  | nil => exact h
  | cons d ds ih =>
    rw [takeDigits]
    split
    · next hnext => exact ih hnext
    · exact h

/-- The powers that a number is scaled by are in range. -/
theorem one_mul_pow_le {power : Nat} (h : power ≤ maxPower) :
    1 * 10 ^ power ≤ 10 ^ Number.greatestPower := by
  rw [Nat.one_mul]
  exact Nat.pow_le_pow_right (by decide) h

/-- A number that is scaled down stays finite. -/
private theorem isFinite_scaleDown {x : Float} (hx : x.isFinite) {power : Nat}
    (hpower : 0 < power) : (scaleDown x power).isFinite := by
  have hdivide {x : Float} (hx : x.isFinite) {power : Nat} (hpower : 0 < power)
      (hle : power ≤ maxPower) : (x / Number.ofDecimal false 1 power).isFinite := by
    have htwo : 2 ≤ 1 * 10 ^ power := by
      rw [Nat.one_mul]
      exact Nat.le_trans (by decide) (Nat.pow_le_pow_right (by decide) hpower)
    have hrange : power < 310 := Nat.lt_of_le_of_lt hle (by decide)
    exact isFinite_div hx (isFinite_ofDecimal false hrange (one_mul_pow_le hle))
      (le_units_ofDecimal false hrange (one_mul_pow_le hle) htwo)
  induction power using Nat.strongRecOn generalizing x with
  | ind power ih =>
    rw [scaleDown]
    split
    · next hle => exact hdivide hx hpower hle
    · next hgt =>
      split
      · exact hx
      · have hpos : 0 < maxPower := by decide
        exact ih _ (by omega) (hdivide hx hpos (Nat.le_refl _)) (by omega)

/-- A number that is scaled up is finite if it is in range. -/
private theorem isFinite_of_scaleUp? {x y : Float} (hx : x.isFinite) {power : Nat}
    (h : scaleUp? x power = some y) : y.isFinite := by
  unfold scaleUp? at h
  split at h
  · cases h
    exact hx
  split at h
  · cases h
  next hle =>
  dsimp only at h
  split at h
  · cases h
  · next hinfinite =>
    cases h
    have hpower : power ≤ maxPower := Nat.le_of_not_lt hle
    have hrange : power < 310 := Nat.lt_of_le_of_lt hpower (by decide)
    have hfactor := isFinite_ofDecimal false hrange (one_mul_pow_le hpower)
    exact (isFinite_or_isInf_mul hx hfactor).resolve_right hinfinite

/-- So a scaled number is finite, if there is one. -/
private theorem isFinite_of_scaled {x y : Float} (hx : x.isFinite) {scale : Int}
    (h : (if 0 ≤ scale then scaleUp? x scale.toNat else some (scaleDown x (-scale).toNat)) =
      some y) : y.isFinite := by
  split at h
  · exact isFinite_of_scaleUp? hx h
  · cases h
    exact isFinite_scaleDown hx (by omega)

/-- The double of a numeral is finite. -/
private theorem isFinite_of_float? {n : Numeral} {x : Float} (h : n.float? = some x) :
    x.isFinite := by
  unfold float? at h
  dsimp only at h
  obtain ⟨y, hy, rfl⟩ := Option.map_eq_some_iff.mp h
  have hwhole := takeDigits_lt (n := 0) (by decide) n.whole
  have hdigits := takeDigits_lt hwhole (n.fraction.getD [])
  have hfinite : y.isFinite :=
    isFinite_of_scaled (isFinite_ofDecimal_zero false (Nat.le_of_lt hdigits)) hy
  split
  · rwa [isFinite_neg]
  · exact hfinite

private theorem isFinite_of_value {n : Numeral} {x : Float} (h : n.value = float x) :
    x.isFinite := by
  unfold Numeral.value at h
  dsimp only at h
  split at h
  · cases h
  split at h
  · cases h
  split at h
  · next hx =>
    cases h
    exact isFinite_of_float? hx
  · cases h

end Numeral

private theorem holdsOfRead_isFinite : HoldsOfRead fun w ↦ ∀ x, w = float x → x.isFinite where
  null _ h := by cases h
  bool _ _ h := by cases h
  numeral _ _ := Numeral.isFinite_of_value
  string _ _ h := by cases h
  array _ _ h := by cases h
  object _ _ h := by cases h
  unreadable _ h := by cases h

/-- All doubles of a value that is read are finite. -/
theorem isFinite_of_mem_doubles {cs : List Char} {v : Json} (h : read? cs = some v) :
    ∀ x ∈ v.doubles, x.isFinite :=
  forall_doubles_iff.mpr (allParts_of_read? holdsOfRead_isFinite h)

/-- A number of a value that was read is finite as a double. -/
theorem isFinite_of_asFloat? {v w : Json} (hbounded : v.Bounded)
    (hdoubles : ∀ x ∈ v.doubles, x.isFinite) (hw : w ∈ v.parts) {x : Float}
    (h : asFloat? w = some x) : x.isFinite := by
  unfold asFloat? at h
  split at h
  · cases h
    exact forall_doubles_iff.mp hdoubles _ hw x rfl
  · next n =>
    cases h
    have hn := hbounded _ hw n rfl
    rw [isInteger64, Bool.and_eq_true, decide_eq_true_iff, decide_eq_true_iff] at hn
    exact isFinite_ofDecimal_zero _ (by omega)
  · cases h

end DeskCalculator.Json
