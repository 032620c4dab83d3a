import DeskCalculator.Proofs.Number.Exact
import DeskCalculator.Proofs.Number.FixedPoint

/-!
# The text of a double is a canonical decimal

A number is shown in the one way that has no digit too many, and what is shown is at most half a
unit of the last place away from what the double denotes. The two ways in which a text is made give
one form, since both write the decimal that the double is rounded to.
-/

namespace DeskCalculator.Number

/-! ### Canonical decimals -/

theorem pointed_injective : Function.Injective pointed := by
  intro ds es h
  cases ds with
  | nil => cases es with
    | nil => rfl
    | cons e es => cases h
  | cons d ds => cases es with
    | nil => cases h
    | cons e es => exact List.tail_eq_of_cons_eq h

/-- A decimal with at most `places` digits after the point, written without a superfluous digit. -/
@[ext] structure CanonicalDecimal (places : Nat) where
  negative : Bool
  whole : List Char
  fraction : List Char
  whole_ne_nil : whole ≠ []
  isDigit_of_mem_whole : ∀ c ∈ whole, c.isDigit
  /-- A zero in front of the point stands alone or not at all. -/
  eq_of_head?_whole : whole.head? = some '0' → whole = ['0']
  isDigit_of_mem_fraction : ∀ c ∈ fraction, c.isDigit
  length_fraction_le : fraction.length ≤ places
  getLast?_fraction_ne : fraction.getLast? ≠ some '0'
  /-- Zero has no sign. -/
  fraction_ne_nil : negative → whole = ['0'] → fraction ≠ []

namespace CanonicalDecimal

variable {places : Nat}

/-- A decimal with its sign, and with a point if there are digits after it. -/
def text (d : CanonicalDecimal places) : List Char :=
  (if d.negative then ['-'] else []) ++
    (d.whole ++ if d.fraction = [] then [] else '.' :: d.fraction)

/-- The rational number that a decimal denotes. -/
def value (d : CanonicalDecimal places) : ℚ :=
  let magnitude : ℚ := Nat.ofDigitChars 10 d.whole 0 +
    Nat.ofDigitChars 10 d.fraction 0 / 10 ^ d.fraction.length
  if d.negative then -magnitude else magnitude

/-- The text of a decimal, as the display writes it. -/
theorem text_eq (d : CanonicalDecimal places) :
    d.text = signText d.negative ++ (d.whole ++ pointed d.fraction) :=
  rfl

/-- The value of a decimal, as its digits are read. -/
private theorem value_eq (d : CanonicalDecimal places) :
    d.value =
      signed d.negative (valueOf d.whole + valueOf d.fraction / 10 ^ d.fraction.length) :=
  rfl

/-- There is no exponent in a decimal. -/
private theorem mem_text {d : CanonicalDecimal places} {c : Char} (h : c ∈ d.text) :
    c.isDigit ∨ c = '.' ∨ c = '-' := by
  rw [text_eq, List.mem_append, List.mem_append] at h
  rcases h with h | h | h
  · rw [signText] at h
    split at h
    · exact .inr (.inr (List.mem_singleton.mp h))
    · cases h
  · exact .inl (d.isDigit_of_mem_whole c h)
  · rw [pointed] at h
    split at h
    · cases h
    · rcases List.mem_cons.mp h with rfl | h
      · exact .inr (.inl rfl)
      · exact .inl (d.isDigit_of_mem_fraction c h)

/-- Only a negative decimal begins with a sign. -/
theorem negative_eq (d : CanonicalDecimal places) :
    d.negative = decide (d.text.head? = some '-') := by
  obtain ⟨c, cs, hwhole⟩ := List.exists_cons_of_ne_nil d.whole_ne_nil
  have hc : c ≠ '-' := Buffer.ne_of_isDigit (d.isDigit_of_mem_whole c (by simp [hwhole])) rfl
  cases hnegative : d.negative with
  | false => simp [text_eq, signText, hnegative, hwhole, hc]
  | true => simp [text_eq, signText, hnegative]

/-- The first digits behind the sign are those before the point. -/
theorem takeWhile_isDigit (d : CanonicalDecimal places) :
    (d.whole ++ pointed d.fraction).takeWhile Char.isDigit = d.whole := by
  rw [List.takeWhile_append_of_pos d.isDigit_of_mem_whole, pointed]
  split
  · rw [List.takeWhile_nil, List.append_nil]
  · rw [List.takeWhile_cons_of_neg (by decide), List.append_nil]

/-- A decimal is known from its text. -/
private theorem text_injective : Function.Injective (@text places) := by
  intro d e h
  have hnegative : d.negative = e.negative := by rw [negative_eq d, negative_eq e, h]
  have hbody : d.whole ++ pointed d.fraction = e.whole ++ pointed e.fraction := by
    rw [text_eq, text_eq, hnegative] at h
    exact List.append_cancel_left h
  have hwhole : d.whole = e.whole := by rw [← takeWhile_isDigit d, hbody, takeWhile_isDigit e]
  rw [hwhole] at hbody
  exact CanonicalDecimal.ext hnegative hwhole (pointed_injective (List.append_cancel_left hbody))

/-- Zero is written without a sign. -/
private theorem text_ne (d : CanonicalDecimal places) : d.text ≠ ['-', '0'] := by
  intro h
  have hnegative : d.negative = true := by rw [negative_eq, h]; rfl
  have hbody : d.whole ++ pointed d.fraction = ['0'] := by
    rw [text_eq, hnegative] at h
    exact List.tail_eq_of_cons_eq h
  have hwhole : d.whole = ['0'] := by rw [← takeWhile_isDigit d, hbody]; rfl
  rw [hwhole] at hbody
  exact d.fraction_ne_nil hnegative hwhole (pointed_injective (List.tail_eq_of_cons_eq hbody))

end CanonicalDecimal

/-! ### What is shown -/

/-- No zero is left at the end. -/
private theorem getLast?_dropTrailing_ne (c : Char) (text : List Char) :
    (dropTrailing c text).getLast? ≠ some c := by
  intro h
  obtain ⟨hne, hlast⟩ := List.mem_getLast?_eq_getLast h
  exact List.rdropWhile_last_not (· == c) text hne (beq_iff_eq.mpr hlast.symm)

/-- A number of `10 ^ -displayPlaces` as it is shown, with a sign unless it is zero. -/
def shownCanonical (negative : Bool) (n : Nat) : CanonicalDecimal displayPlaces where
  negative := negative && n != 0
  whole := digitsOf (n / 10 ^ displayPlaces)
  fraction := shownFraction n
  whole_ne_nil := digitsOf_ne_nil _
  isDigit_of_mem_whole _ := isDigit_of_mem_digitsOf
  eq_of_head?_whole h := by rw [eq_zero_of_head?_digitsOf h]; rfl
  isDigit_of_mem_fraction _ := isDigit_of_mem_shownFraction
  length_fraction_le := by
    obtain ⟨k, hk, -⟩ := exists_valueOf_shown n
    omega
  getLast?_fraction_ne := getLast?_dropTrailing_ne _ _
  fraction_ne_nil hnegative hwhole hfraction := by
    have hzero : n = 0 := shownMagnitude_eq_zero_iff.mp (by
      rw [shownMagnitude, hwhole, hfraction]; rfl)
    rw [hzero, bne_self_eq_false, Bool.and_false] at hnegative
    cases hnegative

/-- What is shown denotes the number of `10 ^ -displayPlaces`. -/
private theorem value_shownCanonical (negative : Bool) (n : Nat) :
    (shownCanonical negative n).value = signed negative (n / 10 ^ displayPlaces) := by
  obtain ⟨k, hk, hvalue⟩ := exists_valueOf_shown n
  rw [valueOf_append] at hvalue
  have hcast : ((valueOf (digitsOf (n / 10 ^ displayPlaces)) * 10 ^ (shownFraction n).length +
      valueOf (shownFraction n)) * 10 ^ k : ℚ) = n := by
    exact_mod_cast hvalue
  have hmagnitude : (valueOf (digitsOf (n / 10 ^ displayPlaces)) +
      valueOf (shownFraction n) / 10 ^ (shownFraction n).length : ℚ) = n / 10 ^ displayPlaces := by
    have hpow : (10 ^ displayPlaces : ℚ) = 10 ^ (shownFraction n).length * 10 ^ k := by
      rw [← pow_add, hk]
    rw [hpow, eq_div_iff (by positivity), ← hcast]
    field_simp
  rw [CanonicalDecimal.value_eq, shownCanonical]
  dsimp only
  rw [hmagnitude]
  by_cases hzero : n = 0
  · rw [hzero, Nat.cast_zero, zero_div, signed_zero, signed_zero]
  · rw [bne_iff_ne.mpr hzero, Bool.and_true]

/-! ### How far it is from the double -/

section

variable {u p d : Nat}

/-- A quotient rounded to a grid is at most half a step away. -/
private theorem abs_roundDiv_sub_le (u : Nat) (hp : 0 < p) (hd : 0 < d) :
    |(roundDiv (u * p) d : ℚ) / p - u / d| ≤ 1 / 2 / p := by
  have hlow : (2 * (u * p) : ℚ) ≤ 2 * (d * roundDiv (u * p) d) + d := by
    exact_mod_cast le_roundDiv (u * p) d hd
  have hhigh : (2 * (d * roundDiv (u * p) d) : ℚ) ≤ 2 * (u * p) + d := by
    exact_mod_cast roundDiv_le (u * p) d
  have hp' : (0 : ℚ) < p := Nat.cast_pos.mpr hp
  have hd' : (0 : ℚ) < d := Nat.cast_pos.mpr hd
  have hdiff : |(roundDiv (u * p) d : ℚ) * d - p * u| ≤ d / 2 := by
    rw [abs_le]
    constructor
    · linarith
    · linarith
  rw [div_sub_div _ _ hp'.ne' hd'.ne', abs_div, abs_of_pos (mul_pos hp' hd'),
    div_le_iff₀ (mul_pos hp' hd')]
  calc
    |(roundDiv (u * p) d : ℚ) * d - p * u| ≤ d / 2 := hdiff
    _ = 1 / 2 / p * (p * d) := by field_simp

/-- A whole number is on every grid. -/
private theorem roundDiv_eq_of_eq_intCast (hp : 0 < p) (hd : 0 < d) {n : ℤ} (h : (u : ℚ) / d = n) :
    (roundDiv (u * p) d : ℚ) / p = u / d := by
  have hp' : (p : ℚ) ≠ 0 := Nat.cast_ne_zero.mpr hp.ne'
  have hd' : (d : ℚ) ≠ 0 := Nat.cast_ne_zero.mpr hd.ne'
  have hdvd : d ∣ u := by
    rw [← Int.natCast_dvd_natCast]
    refine ⟨n, ?_⟩
    rw [div_eq_iff hd', mul_comm] at h
    exact_mod_cast h
  obtain ⟨q, rfl⟩ := hdvd
  rw [Nat.mul_assoc, roundDiv_mul_left _ _ hd, Nat.cast_mul, Nat.cast_mul,
    mul_div_cancel_right₀ _ hp', mul_div_cancel_left₀ _ hd']

/-- A whole number is whole without its sign. -/
private theorem exists_intCast_of_signed {negative : Bool} {q : ℚ} {n : ℤ}
    (h : signed negative q = n) : ∃ m : ℤ, q = m := by
  cases negative with
  | false => exact ⟨n, h⟩
  | true => exact ⟨-n, by rw [Int.cast_neg, ← h, signed, if_pos rfl, neg_neg]⟩

end

/-- A finite double is shown as a canonical decimal with at most ten digits after the point, without
an exponent. That decimal is at most half a unit of the tenth place away from what the double
denotes, and is that number if it is whole. -/
theorem displayText_canonical {x : Float} (h : x.isFinite) :
    (∃ d : CanonicalDecimal 10, d.text = displayText x) ∧ displayText x ≠ ['-', '0'] ∧
      (∀ c ∈ displayText x, c.isDigit ∨ c = '.' ∨ c = '-') ∧
      ∀ d : CanonicalDecimal 10, d.text = displayText x →
        |d.value - exactValue x| ≤ 1 / 2 / 10 ^ 10 ∧
          ∀ n : ℤ, exactValue x = n → d.value = n := by
  have hten : displayPlaces = 10 := rfl
  have hplaces : 0 < 10 ^ displayPlaces := Nat.pow_pos (by decide)
  have hunit : 0 < 2 ^ unitExponent := Nat.two_pow_pos _
  have hplacesCast : ((10 ^ displayPlaces : ℕ) : ℚ) = 10 ^ displayPlaces := Nat.cast_pow 10 _
  have hunitCast : ((2 ^ unitExponent : ℕ) : ℚ) = 2 ^ unitExponent := Nat.cast_pow 2 _
  have htext : (shownCanonical (isNegative x) (shownDecimal x)).text = displayText x :=
    (displayText_eq h).symm
  rw [← htext, ← hten]
  refine ⟨⟨_, rfl⟩, CanonicalDecimal.text_ne _, fun _ ↦ CanonicalDecimal.mem_text, fun d hd ↦ ?_⟩
  rw [CanonicalDecimal.text_injective hd, value_shownCanonical, exactValue_eq h, ← hplacesCast,
    ← hunitCast, shownDecimal, scaledMagnitude]
  refine ⟨?_, fun n hn ↦ ?_⟩
  · rw [abs_signed_sub_signed]
    exact abs_roundDiv_sub_le (units (magnitudeBits x)) hplaces hunit
  · obtain ⟨m, hm⟩ := exists_intCast_of_signed hn
    rw [roundDiv_eq_of_eq_intCast hplaces hunit hm, hn]

/-- The nines behind the point are all rounded away, into the digit before it: eleven of them have
no room on the display. -/
theorem displayText_canonical_of_carry :
    let x := ofDecimal true 99999999999 (-11)
    x.isFinite ∧ displayText x = ['-', '1'] ∧
      (∃ d : CanonicalDecimal 10, d.text = displayText x) ∧ displayText x ≠ ['-', '0'] ∧
        (∀ c ∈ displayText x, c.isDigit ∨ c = '.' ∨ c = '-') ∧
        ∀ d : CanonicalDecimal 10, d.text = displayText x →
          |d.value - exactValue x| ≤ 1 / 2 / 10 ^ 10 ∧
            ∀ n : ℤ, exactValue x = n → d.value = n :=
  ⟨by decide +kernel, by decide +kernel, displayText_canonical (by decide +kernel)⟩

example : displayText (ofDecimal false 2 0 / ofDecimal false 3 0) = "0.6666666667".toList := by
  decide +kernel

end DeskCalculator.Number
