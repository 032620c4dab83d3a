import DeskCalculator.Proofs.Buffer.Typed
import DeskCalculator.Proofs.Display.Numerals
import DeskCalculator.Proofs.Number.Signs

/-!
# The sign key

The sign key works on a buffer that is a single number. Such a buffer is an expression whatever its
digits are, with a leading zero, with nothing behind its point, or too large for a double, and the
key changes the sign of its value.
-/

namespace DeskCalculator.Buffer

open Expression (compute finite isLiteralChar numeralValue)
open Number (signText)

variable {b c run : List Char}

/-! ### Numbers without a sign -/

/-- A single number without a sign: digits with at most one point after the first of them. -/
def IsUnsigned (run : List Char) : Prop :=
  ∃ whole tail, run = whole ++ tail ∧ whole ≠ [] ∧ (∀ c ∈ whole, c.isDigit) ∧
    (tail = [] ∨ ∃ fraction, tail = '.' :: fraction ∧ ∀ c ∈ fraction, c.isDigit)

/-- A plain number is one without a sign, perhaps after a minus sign. -/
theorem isPlainNumber_iff_isUnsigned :
    isPlainNumber b ↔ ∃ negative run, IsUnsigned run ∧ b = signText negative ++ run := by
  rw [isPlainNumber_iff]
  constructor
  · rintro ⟨sign, whole, tail, rfl, rfl | rfl, hrest⟩
    · exact ⟨false, whole ++ tail, ⟨whole, tail, rfl, hrest⟩, rfl⟩
    · exact ⟨true, whole ++ tail, ⟨whole, tail, rfl, hrest⟩, rfl⟩
  · rintro ⟨negative, run, ⟨whole, tail, rfl, hrest⟩, rfl⟩
    exact ⟨_, whole, tail, rfl, Number.signText_cases negative, hrest⟩

namespace IsUnsigned

private theorem head?_ne (h : IsUnsigned run) : run.head? ≠ some '-' := by
  obtain ⟨whole, tail, rfl, hne, hwhole, -⟩ := h
  obtain ⟨c, whole, rfl⟩ := List.exists_cons_of_ne_nil hne
  simpa using ne_of_isDigit (hwhole c (by simp)) rfl

/-- The sign key takes a minus sign away or puts one in front, unless the number is `0`. -/
theorem toggleSign?_signText (h : IsUnsigned run) (negative : Bool) :
    toggleSign? (signText negative ++ run) =
      if signText negative ++ run = zero then none else some (signText (!negative) ++ run) := by
  have hplain : isPlainNumber (signText negative ++ run) :=
    isPlainNumber_iff_isUnsigned.mpr ⟨negative, run, h, rfl⟩
  rw [toggleSign?]
  simp only [hplain, Bool.not_true, Bool.or_false, decide_eq_true_eq]
  split
  · rfl
  · cases negative with
    | false => exact if_neg h.head?_ne
    | true => rfl

/-- Every number without a sign is a literal of the evaluator. -/
theorem isNumeral (h : IsUnsigned run) :
    (∀ c ∈ run, isLiteralChar c) ∧ (∃ c ∈ run, c.isDigit) ∧ run.count '.' ≤ 1 := by
  obtain ⟨whole, tail, rfl, hne, hwhole, htail⟩ := h
  have hpoints {ds : List Char} (hds : ∀ c ∈ ds, c.isDigit) : ds.count '.' = 0 :=
    List.count_eq_zero.mpr fun hmem ↦ by cases hds '.' hmem
  have hliteral {ds : List Char} (hds : ∀ c ∈ ds, c.isDigit) : ∀ c ∈ ds, isLiteralChar c :=
    fun c hc ↦ isLiteralChar_of_isDigit (hds c hc)
  rw [List.forall_mem_append, List.count_append, hpoints hwhole]
  obtain ⟨d, ds, rfl⟩ := List.exists_cons_of_ne_nil hne
  refine ⟨⟨hliteral hwhole, ?_⟩, ⟨d, by simp, hwhole d (by simp)⟩, ?_⟩
  · rcases htail with rfl | ⟨fraction, rfl, hfraction⟩
    · exact List.forall_mem_nil _
    · exact List.forall_mem_cons.mpr ⟨rfl, hliteral hfraction⟩
  · rcases htail with rfl | ⟨fraction, rfl, hfraction⟩
    · exact Nat.zero_le 1
    · rw [List.count_cons_self, hpoints hfraction]

/-- What a number with a sign computes to. -/
theorem compute_signText (h : IsUnsigned run) (negative : Bool) :
    compute (signText negative ++ run) =
      (finite (if negative then -numeralValue run else numeralValue run)).mapError
        .invalidExpression :=
  Display.compute_signText h.isNumeral.1 h.isNumeral.2.1 h.isNumeral.2.2 negative

end IsUnsigned

/-! ### Both signs -/

/-- The sign key takes a number from one sign to the other. -/
theorem exists_of_toggleSign? (h : toggleSign? b = some c) :
    ∃ negative run, IsUnsigned run ∧ b = signText negative ++ run ∧
      c = signText (!negative) ++ run := by
  have hplain : isPlainNumber b := by
    by_contra hnot
    rw [toggleSign?, if_pos (by simp [hnot])] at h
    cases h
  obtain ⟨negative, run, hrun, rfl⟩ := isPlainNumber_iff_isUnsigned.mp hplain
  rw [hrun.toggleSign?_signText] at h
  split at h
  · cases h
  · exact ⟨negative, run, hrun, rfl, (Option.some.inj h).symm⟩

/-- Pressed twice the sign key gives a buffer back, unless its number is `-0`. -/
private theorem toggleSign?_eq_some_iff (h : toggleSign? b = some c) :
    toggleSign? c = some b ↔ b ≠ ['-', '0'] := by
  obtain ⟨negative, run, hrun, rfl, rfl⟩ := exists_of_toggleSign? h
  have hzero : signText (!negative) ++ run = zero ↔ signText negative ++ run = ['-', '0'] := by
    cases negative with
    | false => exact iff_of_false (by rintro ⟨⟩) fun heq ↦ hrun.head?_ne (congrArg List.head? heq)
    | true => exact ⟨congrArg ('-' :: ·), fun heq ↦ (List.cons.inj heq).2⟩
  rw [hrun.toggleSign?_signText, Bool.not_not, Ne, ← hzero]
  split
  · next hnone => simp [hnone]
  · next hsome => simp [hsome]

/-- A number is finite with either sign or with none, and then the two values are opposite. -/
private theorem finite_signs_cases (x : Float) (negative : Bool) :
    let y := if negative then -x else x
    let z := if !negative then -x else x
    (∃ v, finite y = .ok v ∧ finite z = .ok (-v)) ∨
      (finite y = .error .nonFinite ∧ finite z = .error .nonFinite) := by
  have hneg : (-x).isFinite = x.isFinite := Number.isFinite_neg x
  intro y z
  have hyz : y.isFinite = x.isFinite ∧ z.isFinite = x.isFinite := by
    cases negative with
    | false => exact ⟨rfl, hneg⟩
    | true => exact ⟨hneg, rfl⟩
  rw [finite, finite, hyz.1, hyz.2]
  by_cases hx : x.isFinite
  · rw [if_pos hx, if_pos hx]
    cases negative with
    | false => exact .inl ⟨x, rfl, rfl⟩
    | true => exact .inl ⟨-x, rfl, congrArg Except.ok (Number.neg_neg_of_isFinite hx).symm⟩
  · rw [if_neg hx, if_neg hx]
    exact .inr ⟨rfl, rfl⟩

/-- Where the sign key changes a buffer, the new one has the opposite value. If the buffer has none,
its number is too large for a double, and so it is with the other sign. Pressed again the key gives
the buffer back, except that it leaves the `0` that it has made of `-0`. -/
theorem toggleSign_negates (h : toggleSign? b = some c) :
    (∀ v, compute b = .ok v → compute c = .ok (-v)) ∧
      (∀ e, compute b = .error e →
        e = .invalidExpression .nonFinite ∧ compute c = .error (.invalidExpression .nonFinite)) ∧
      (toggleSign? c = some b ↔ b ≠ ['-', '0']) := by
  have hback := toggleSign?_eq_some_iff h
  obtain ⟨negative, run, hrun, rfl, rfl⟩ := exists_of_toggleSign? h
  rw [hrun.compute_signText, hrun.compute_signText]
  rcases finite_signs_cases (numeralValue run) negative with ⟨v, hv, hneg⟩ | ⟨hv, hneg⟩
  · rw [hv, hneg]
    refine ⟨?_, by rintro e ⟨⟩, hback⟩
    rintro w ⟨⟩
    rfl
  · rw [hv, hneg]
    refine ⟨by rintro w ⟨⟩, ?_, hback⟩
    rintro e ⟨⟩
    exact ⟨rfl, rfl⟩

/-- A number of 400 digits has no value with either sign. A number with leading zeros and a point at
its end loses its sign and gets it back. -/
theorem toggleSign_of_overflow_and_of_bare_point :
    let large := List.replicate 400 '9'
    (toggleSign? large = some ('-' :: large) ∧
      compute large = .error (.invalidExpression .nonFinite) ∧
      compute ('-' :: large) = .error (.invalidExpression .nonFinite)) ∧
    toggleSign? "-007.".toList = some "007.".toList ∧ compute "-007.".toList = .ok (-7) ∧
      compute "007.".toList = .ok (- -7) ∧ toggleSign? "007.".toList = some "-007.".toList := by
  intro large
  have hlarge : toggleSign? large = some ('-' :: large) := by decide +kernel
  have hpoint : toggleSign? "-007.".toList = some "007.".toList := by decide +kernel
  have hoverflow : compute large = .error (.invalidExpression .nonFinite) := by decide +kernel
  have hseven : compute "-007.".toList = .ok (-7) := by decide +kernel
  obtain ⟨-, herror, -⟩ := toggleSign_negates hlarge
  obtain ⟨hvalue, -, hback⟩ := toggleSign_negates hpoint
  exact ⟨⟨hlarge, hoverflow, (herror _ hoverflow).2⟩, hpoint, hseven, hvalue _ hseven,
    hback.mpr (by decide)⟩

end DeskCalculator.Buffer
