import DeskCalculator.Proofs.Number.Differences
import DeskCalculator.Proofs.Number.FixedPoint
import DeskCalculator.Tax.Apply

/-!
# The label of a taxed result

A taxed result is finite, and so is the rate beside it. The difference that the tax makes need not
be: a tax that turns the sign of a result round can leave it further away than the greatest double,
and its label shows an infinity then. A rate factor that is not negative keeps the sign, and the
difference of two finite doubles of one sign is finite.
-/

namespace DeskCalculator.Tax

open Number

/-! ### Amounts -/

/-- A decimal number with two digits after its point. -/
def IsAmount (text : List Char) : Prop :=
  ∃ whole hundredths, text = whole ++ '.' :: hundredths ∧ whole ≠ [] ∧ hundredths.length = 2 ∧
    (∀ c ∈ whole, c.isDigit) ∧ ∀ c ∈ hundredths, c.isDigit

private theorem isAmount_placesText (n : ℕ) : IsAmount (placesText 2 n) := by
  rw [placesText, if_neg (by decide)]
  exact ⟨_, _, rfl, digitsOf_ne_nil _, length_paddedDigits (by decide) (Nat.mod_lt n (by decide)),
    fun _ ↦ isDigit_of_mem_digitsOf, fun _ ↦ isDigit_of_mem_paddedDigits⟩

/-- The magnitude of a finite double is written as an amount. -/
private theorem isAmount_fixedText_magnitude {x : Float} (h : x.isFinite) :
    IsAmount (fixedText 2 (magnitude x)) := by
  have hbits := magnitudeBits_lt_of_isFinite h
  rw [fixedText, magnitude, magnitudeBits_ofMagnitude false hbits,
    isNegative_ofMagnitude false hbits, if_neg (by omega), if_neg (by omega)]
  exact isAmount_placesText _

/-- The magnitude of an infinite double is written as infinity. -/
private theorem fixedText_magnitude_of_isInf {x : Float} (h : x.isInf) :
    fixedText 2 (magnitude x) = ['i', 'n', 'f'] := by
  rw [magnitude, magnitudeBits_of_isInf h]
  decide +kernel

/-! ### The sign of a taxed value -/

section

variable {result : Float} {s : Settings}

/-- Whether the rate of the settings is in use. -/
def Mode.UsesRate (m : Mode) : Prop :=
  m = .custom ∨ m = .extractCustom

/-- Only a negative rate factor turns the sign of a result round. -/
private theorem isNegative_taxedValue (hresult : result.isFinite)
    (h : (taxedValue result s).isFinite)
    (hfactor : s.mode.UsesRate → isNegative (rateFactor s.rate) = false) :
    isNegative (taxedValue result s) = isNegative result := by
  unfold taxedValue at h ⊢
  cases hmode : s.mode with
  | add15 =>
    rw [hmode] at h
    exact isNegative_mul hresult (by decide +kernel) h
  | custom =>
    rw [hmode] at h
    exact isNegative_mul hresult (hfactor (.inl hmode)) h
  | extractCustom =>
    rw [hmode] at h
    exact isNegative_div hresult (hfactor (.inr hmode)) h
  | divide93 =>
    rw [hmode] at h
    exact isNegative_div hresult (by decide +kernel) h

private theorem isFinite_effectiveRate (m : Mode) {rate : Float} (h : rate.isFinite) :
    (m.effectiveRate rate).isFinite := by
  cases m with
  | add15 =>
    change Float.isFinite 15
    decide +kernel
  | divide93 =>
    change Float.isFinite 7
    decide +kernel
  | custom => exact h
  | extractCustom => exact h

/-! ### The label -/

/-- A tax on a finite result at a finite rate has a finite value. Its label is a sign, the
difference and the rate, which is finite, as it is shown on the display. The difference is written
with two digits after the point if it is finite. If it is not, it is written as infinity, and a
negative rate factor has turned the sign of the result round. -/
theorem taxed?_label {t : Taxed} (hresult : result.isFinite) (hrate : s.rate.isFinite)
    (h : taxed? result s = some t) :
    t.value.isFinite ∧ (s.mode.effectiveRate s.rate).isFinite ∧
      ∃ sign amount,
        t.label = sign :: amount ++
          (" (".toList ++ displayText (s.mode.effectiveRate s.rate) ++ "%)".toList) ∧
        (sign = '+' ∨ sign = '-') ∧
        if (t.value - result).isFinite then IsAmount amount
        else amount = ['i', 'n', 'f'] ∧ s.mode.UsesRate ∧ isNegative (rateFactor s.rate) := by
  unfold taxed? at h
  dsimp only at h
  split at h
  · next henabled =>
    cases h
    rw [Bool.and_eq_true] at henabled
    have hvalue : (taxedValue result s).isFinite := henabled.2
    refine ⟨hvalue, isFinite_effectiveRate s.mode hrate, _, _, rfl, ?_, ?_⟩
    · split
      · exact .inr rfl
      · exact .inl rfl
    · split
      · next hdifference => exact isAmount_fixedText_magnitude hdifference
      · next hdifference =>
        have hinfinite := (isFinite_or_isInf_sub hvalue hresult).resolve_left hdifference
        have hturned : ¬ isNegative (taxedValue result s) = isNegative result := fun hsame ↦
          hdifference (isFinite_sub hvalue hresult hsame)
        refine ⟨fixedText_magnitude_of_isInf hinfinite, ?_⟩
        by_contra hfactor
        refine hturned (isNegative_taxedValue hresult hvalue fun huses ↦ ?_)
        exact Bool.eq_false_iff.mpr fun hnegative ↦ hfactor ⟨huses, hnegative⟩
  · cases h

end

/-- A tax of -150 % turns the sign of ten round, and the difference is finite. -/
theorem taxed?_label_of_turned_sign :
    let s : Settings := ⟨true, .custom, -150, false⟩
    let t : Taxed := ⟨taxedValue 10 s, label (taxedValue 10 s - 10) (-150)⟩
    Float.isFinite 10 ∧ s.rate.isFinite ∧ taxed? 10 s = some t ∧
      t.label = "-15.00 (-150%)".toList ∧ t.value.isFinite ∧
      ∃ sign amount,
        t.label = sign :: amount ++ (" (".toList ++ displayText (-150) ++ "%)".toList) ∧
        (sign = '+' ∨ sign = '-') ∧ IsAmount amount := by
  intro s t
  have hresult : Float.isFinite 10 := by decide +kernel
  have hrate : s.rate.isFinite := by decide +kernel
  have htaxed : taxed? 10 s = some t := if_pos (by decide +kernel)
  have hlabel : t.label = "-15.00 (-150%)".toList := by decide +kernel
  have hdifference : (t.value - 10).isFinite := by decide +kernel
  obtain ⟨hvalue, -, sign, amount, htext, hsign, hamount⟩ := taxed?_label hresult hrate htaxed
  rw [if_pos hdifference] at hamount
  exact ⟨hresult, hrate, htaxed, hlabel, hvalue, sign, amount, htext, hsign, hamount⟩

/-- A tax of -250 % turns the sign of `10 ^ 308` round, and the difference is shown as an
infinity. -/
theorem label_infinite :
    let s : Settings := ⟨true, .custom, -250, false⟩
    let result : Float := ofDecimal false 1 308
    result.isFinite ∧ s.rate.isFinite ∧
      (taxed? result s).map (fun t ↦ (t.value.isFinite, t.label)) =
        some (true, "-inf (-250%)".toList) := by
  decide +kernel

end DeskCalculator.Tax
