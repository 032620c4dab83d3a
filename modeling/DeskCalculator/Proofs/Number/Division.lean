import DeskCalculator.Number.Binary64

/-!
# Division by zero

Dividing by zero never gives a finite number, whatever is divided: zero and what is no number give
no number, and everything else an infinity.
-/

namespace DeskCalculator.Number

open Float.Model

/-- What compares equal to zero is one of the two zeros. -/
private theorem exists_unpack_eq_zero {x : Float} (h : x == 0) :
    ∃ s, x.toModel.unpack = .zero s := by
  have hcompare : (x.toModel.unpack.compare (.zero .positive) == some .eq) = true := h
  cases hx : x.toModel.unpack with
  | zero s => exact ⟨s, rfl⟩
  | notANumber =>
    rw [hx] at hcompare
    cases hcompare
  | infinity s =>
    rw [hx] at hcompare
    cases s <;> cases hcompare
  | finite s m e hm =>
    rw [hx] at hcompare
    cases s <;> cases hcompare

/-- A quotient by zero is an infinity or no number. -/
private theorem div_zero_cases (u : UnpackedFloat) (s : UnpackedFloat.Sign) :
    (∃ t, UnpackedFloat.div .binary64 u (.zero s) = .infinity t) ∨
      UnpackedFloat.div .binary64 u (.zero s) = .notANumber := by
  cases u with
  | notANumber => exact .inr rfl
  | infinity t => exact .inl ⟨_, rfl⟩
  | zero t => exact .inr rfl
  | finite t m e hm => exact .inl ⟨_, rfl⟩

/-- No number divided by zero is finite. -/
theorem isFinite_div_zero {x : Float} (h : x == 0) (a : Float) : (a / x).isFinite = false := by
  obtain ⟨s, hs⟩ := exists_unpack_eq_zero h
  have hquotient : a / x = ⟨pack (.div .binary64 a.toModel.unpack x.toModel.unpack)⟩ := rfl
  rw [hquotient, hs]
  rcases div_zero_cases a.toModel.unpack s with ⟨t, ht⟩ | hnan
  · rw [ht]
    cases t <;> rfl
  · rw [hnan]
    rfl

end DeskCalculator.Number
