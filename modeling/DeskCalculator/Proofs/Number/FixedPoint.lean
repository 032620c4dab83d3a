import DeskCalculator.Expression.Token
import DeskCalculator.Proofs.Number.Display
import DeskCalculator.Proofs.Number.Nearest
import DeskCalculator.Proofs.Number.Signs

/-!
# Reading what is shown

The text of a finite double is the decimal with ten places that it rounds to, without the zeros at
its end and with a sign unless it is zero. Read as a number, the text without its sign is the double
nearest to that decimal, which has the same text.
-/

namespace DeskCalculator.Number

open Buffer (isLiteralChar_of_isDigit)
open Expression (isLiteralChar numeralValue)

/-! ### Digits -/

theorem valueOf_append (ds es : List Char) :
    valueOf (ds ++ es) = valueOf ds * 10 ^ es.length + valueOf es := by
  rw [valueOf, Nat.ofDigitChars_append, Nat.ofDigitChars_eq_ofDigitChars_zero, Nat.mul_comm]
  rfl

/-- Zeros at the end scale a number. -/
theorem valueOf_append_zeros (ds : List Char) (k : Nat) :
    valueOf (ds ++ List.replicate k '0') = valueOf ds * 10 ^ k := by
  rw [valueOf_append, List.length_replicate, valueOf, valueOf, Nat.ofDigitChars_replicate_zero,
    Nat.mul_zero, Nat.add_zero]

theorem length_paddedDigits {width n : Nat} (hwidth : 0 < width) (h : n < 10 ^ width) :
    (paddedDigits width n).length = width := by
  have hle : (digitsOf n).length ≤ width := (Nat.length_toDigits_le_iff (by decide) hwidth).mpr h
  rw [paddedDigits, List.length_append, List.length_replicate]
  omega

/-- Only the characters that are dropped are gone. -/
theorem exists_dropTrailing_append (c : Char) (text : List Char) :
    ∃ k, text = dropTrailing c text ++ List.replicate k c := by
  have hsplit : dropTrailing c text ++ text.rtakeWhile (· == c) = text :=
    List.rdropWhile_append_rtakeWhile
  have hrun : text.rtakeWhile (· == c) = List.replicate (text.rtakeWhile (· == c)).length c :=
    List.eq_replicate_of_mem fun d hd ↦ by simpa using List.mem_rtakeWhile_imp hd
  exact ⟨_, by rw [← hrun, hsplit]⟩

/-! ### The text of a decimal -/

/-- The digits after the point of a number of `10 ^ -displayPlaces`, without the zeros at their
end. -/
def shownFraction (n : Nat) : List Char :=
  dropTrailing '0' (paddedDigits displayPlaces (n % 10 ^ displayPlaces))

/-- A number of `10 ^ -displayPlaces` on the display. -/
def shownMagnitude (n : Nat) : List Char :=
  digitsOf (n / 10 ^ displayPlaces) ++ pointed (shownFraction n)

theorem isDigit_of_mem_shownFraction {n : Nat} {c : Char} (h : c ∈ shownFraction n) : c.isDigit :=
  isDigit_of_mem_paddedDigits (mem_of_mem_dropTrailing h)

/-- The digits on the display are those of the number, scaled. -/
theorem exists_valueOf_shown (n : Nat) :
    ∃ k, (shownFraction n).length + k = displayPlaces ∧
      valueOf (digitsOf (n / 10 ^ displayPlaces) ++ shownFraction n) * 10 ^ k = n := by
  have hlength : (paddedDigits displayPlaces (n % 10 ^ displayPlaces)).length = displayPlaces :=
    length_paddedDigits (by decide) (Nat.mod_lt n (by decide))
  obtain ⟨k, hk⟩ := exists_dropTrailing_append '0'
    (paddedDigits displayPlaces (n % 10 ^ displayPlaces))
  refine ⟨k, ?_, ?_⟩
  · rw [hk, List.length_append, List.length_replicate] at hlength
    exact hlength
  · rw [← valueOf_append_zeros, List.append_assoc, shownFraction, ← hk, valueOf_append, hlength,
      valueOf_digitsOf, valueOf_paddedDigits, Nat.div_add_mod']

/-- Without its point a text on the display is its digits. -/
theorem filter_shownMagnitude (n : Nat) :
    (shownMagnitude n).filter (· != '.') =
      digitsOf (n / 10 ^ displayPlaces) ++ shownFraction n := by
  have hdigits {ds : List Char} (h : ∀ c ∈ ds, c.isDigit) : ds.filter (· != '.') = ds :=
    List.filter_eq_self.mpr fun c hc ↦ by simpa using Buffer.ne_of_isDigit (h c hc) rfl
  have hpointed : (pointed (shownFraction n)).filter (· != '.') = shownFraction n := by
    rw [pointed]
    split
    · next hnil => rw [hnil, List.filter_nil]
    · rw [List.filter_cons, if_neg (by decide)]
      exact hdigits fun _ ↦ isDigit_of_mem_shownFraction
  rw [shownMagnitude, List.filter_append, hpointed, hdigits fun _ ↦ isDigit_of_mem_digitsOf]

theorem isLiteralChar_of_mem_shownMagnitude {n : Nat} {c : Char} (h : c ∈ shownMagnitude n) :
    isLiteralChar c := by
  rcases List.mem_append.mp h with h | h
  · exact isLiteralChar_of_isDigit (isDigit_of_mem_digitsOf h)
  · rw [pointed] at h
    split at h
    · cases h
    · rcases List.mem_cons.mp h with rfl | h
      · rfl
      · exact isLiteralChar_of_isDigit (isDigit_of_mem_shownFraction h)

theorem exists_digit_mem_shownMagnitude (n : Nat) : ∃ c ∈ shownMagnitude n, c.isDigit := by
  obtain ⟨c, ds, hdigits⟩ := List.exists_cons_of_ne_nil (digitsOf_ne_nil (n / 10 ^ displayPlaces))
  have hc : c ∈ digitsOf (n / 10 ^ displayPlaces) := by simp [hdigits]
  exact ⟨c, List.mem_append_left _ hc, isDigit_of_mem_digitsOf hc⟩

theorem count_point_shownMagnitude_le (n : Nat) : (shownMagnitude n).count '.' ≤ 1 := by
  have hdigits {ds : List Char} (h : ∀ c ∈ ds, c.isDigit) : ds.count '.' = 0 :=
    List.count_eq_zero.mpr fun hmem ↦ by cases h '.' hmem
  rw [shownMagnitude, List.count_append, hdigits fun _ ↦ isDigit_of_mem_digitsOf, Nat.zero_add,
    pointed]
  split
  · exact Nat.zero_le 1
  · rw [List.count_cons_self, hdigits fun _ ↦ isDigit_of_mem_shownFraction]

/-- What stands behind the point. -/
private theorem drop_shownMagnitude (n : Nat) :
    ((shownMagnitude n).dropWhile (· != '.')).drop 1 = shownFraction n := by
  have hwhole : ∀ c ∈ digitsOf (n / 10 ^ displayPlaces), (c != '.') = true := fun c hc ↦ by
    simpa using Buffer.ne_of_isDigit (isDigit_of_mem_digitsOf hc) rfl
  rw [shownMagnitude, List.dropWhile_append_of_pos hwhole, pointed]
  split
  · next hnil => rw [hnil]; rfl
  · rfl

/-- Read as a number, a text on the display is the double nearest to what it writes. -/
private theorem numeralValue_shownMagnitude (n : Nat) :
    numeralValue (shownMagnitude n) = ofMagnitude false
      (nearestBits (valueOf (digitsOf (n / 10 ^ displayPlaces) ++ shownFraction n))
        (10 ^ (shownFraction n).length)) := by
  obtain ⟨k, hk, -⟩ := exists_valueOf_shown n
  rw [numeralValue, filter_shownMagnitude, drop_shownMagnitude, ofDecimal, decimalBits_neg]
  unfold displayPlaces at hk
  omega

/-- The decimal that a double is shown as. -/
def shownDecimal (x : Float) : Nat :=
  scaledMagnitude displayPlaces (magnitudeBits x)

/-- What is shown of a double without its sign is read as a finite number without a sign that is
shown as the same decimal. -/
theorem numeralValue_shownDecimal {x : Float} (h : x.isFinite) :
    let y := numeralValue (shownMagnitude (shownDecimal x))
    y.isFinite ∧ isNegative y = false ∧ shownDecimal y = shownDecimal x := by
  obtain ⟨k, hk, hvalue⟩ := exists_valueOf_shown (shownDecimal x)
  have hpow : 10 ^ (shownFraction (shownDecimal x)).length * 10 ^ k = 10 ^ displayPlaces := by
    rw [← Nat.pow_add, hk]
  obtain ⟨hfinite, hsame⟩ :=
    scaledMagnitude_nearestBits (magnitudeBits_lt_of_isFinite h) hpow hvalue
  intro y
  have hy : y = ofMagnitude false _ := numeralValue_shownMagnitude (shownDecimal x)
  have hbits := magnitudeBits_ofMagnitude false hfinite
  rw [← hy] at hbits
  refine ⟨isFinite_of_magnitudeBits_lt (by rwa [hbits]), ?_, ?_⟩
  · rw [hy, isNegative_ofMagnitude false hfinite]
  · rw [shownDecimal, hbits, hsame]
    rfl

/-- A change of sign does not change the decimal. -/
theorem shownDecimal_neg {x : Float} (h : x.isFinite) : shownDecimal (-x) = shownDecimal x := by
  rw [shownDecimal, magnitudeBits_neg h, shownDecimal]

/-! ### The text of a double -/

/-- A whole number is written without a point. -/
private theorem shownMagnitude_whole (n : Nat) :
    shownMagnitude (n * 10 ^ displayPlaces) = digitsOf n := by
  have hfraction : shownFraction (n * 10 ^ displayPlaces) = [] := by
    rw [shownFraction, Nat.mul_mod_left]
    rfl
  rw [shownMagnitude, hfraction, Nat.mul_div_cancel n (by decide), pointed, if_pos rfl,
    List.append_nil]

/-- Only zero is written as zero. -/
theorem shownMagnitude_eq_zero_iff {n : Nat} : shownMagnitude n = ['0'] ↔ n = 0 := by
  constructor
  · intro h
    obtain ⟨k, -, hvalue⟩ := exists_valueOf_shown n
    rw [← filter_shownMagnitude, h] at hvalue
    rw [← hvalue]
    exact Nat.zero_mul _
  · rintro rfl
    rfl

/-- In fixed point a double is written as the decimal that it is shown as. -/
private theorem dropTrailing_fixedText {x : Float} (h : x.isFinite) :
    dropTrailing '.' (dropTrailing '0' (fixedText displayPlaces x)) =
      signText (isNegative x) ++ shownMagnitude (shownDecimal x) := by
  have hbits := magnitudeBits_lt_of_isFinite h
  rw [fixedText, if_neg (by omega), if_neg (by omega), placesText, if_neg (by decide)]
  exact dropTrailing_point _ (digitsOf_ne_nil _) (fun _ ↦ isDigit_of_mem_digitsOf)
    (fun _ ↦ isDigit_of_mem_paddedDigits)

/-- A whole number is the decimal of itself. -/
theorem shownDecimal_of_isShortWhole {x : Float} (h : isShortWhole (magnitudeBits x)) :
    shownDecimal x = units (magnitudeBits x) / 2 ^ unitExponent * 10 ^ displayPlaces := by
  rw [isShortWhole, Bool.and_eq_true, decide_eq_true_eq] at h
  obtain ⟨n, hn⟩ := Nat.dvd_of_mod_eq_zero h.1
  have hunit : 0 < 2 ^ unitExponent := Nat.two_pow_pos _
  rw [shownDecimal, scaledMagnitude, hn, Nat.mul_assoc, roundDiv_mul_left _ _ hunit,
    Nat.mul_div_cancel_left n hunit]

/-- Only the pattern zero is a whole number that is zero. -/
private theorem magnitudeBits_eq_zero_iff {x : Float} (h : isShortWhole (magnitudeBits x)) :
    magnitudeBits x = 0 ↔ units (magnitudeBits x) / 2 ^ unitExponent = 0 := by
  rw [isShortWhole, Bool.and_eq_true, decide_eq_true_eq] at h
  have hunits := Nat.div_add_mod (units (magnitudeBits x)) (2 ^ unitExponent)
  rw [h.1, Nat.add_zero] at hunits
  constructor
  · intro hzero
    rw [hzero, units_zero, Nat.zero_div]
  · intro hzero
    rw [hzero, Nat.mul_zero] at hunits
    apply units_strictMono.injective
    rw [units_zero, hunits]

/-- The text of a finite double is that of the decimal that it is shown as, with a sign unless that
is zero. -/
theorem displayText_eq {x : Float} (h : x.isFinite) :
    displayText x =
      signText (isNegative x && shownDecimal x != 0) ++ shownMagnitude (shownDecimal x) := by
  unfold displayText
  dsimp only
  split
  · next hwhole =>
    have hzero : (magnitudeBits x != 0) = (shownDecimal x != 0) := by
      rw [Bool.eq_iff_iff, bne_iff_ne, bne_iff_ne, Ne, Ne, magnitudeBits_eq_zero_iff hwhole,
        shownDecimal_of_isShortWhole hwhole, Nat.mul_eq_zero, or_iff_left (by decide)]
    rw [hzero, shownDecimal_of_isShortWhole hwhole, shownMagnitude_whole]
  · rw [dropTrailing_fixedText h]
    by_cases hzero : shownDecimal x = 0
    · rw [hzero, shownMagnitude_eq_zero_iff.mpr rfl]
      cases isNegative x with
      | false => rfl
      | true => rfl
    · rw [bne_iff_ne.mpr hzero, Bool.and_true, if_neg]
      intro htext
      cases hnegative : isNegative x with
      | false =>
        rw [hnegative, signText, if_neg (by decide), List.nil_append] at htext
        have hsign : '-' ∈ shownMagnitude (shownDecimal x) := by simp [htext]
        exact absurd (isLiteralChar_of_mem_shownMagnitude hsign) (by decide)
      | true =>
        rw [hnegative, signText, if_pos rfl, List.singleton_append, List.cons.injEq] at htext
        exact hzero (shownMagnitude_eq_zero_iff.mp htext.2)

end DeskCalculator.Number
