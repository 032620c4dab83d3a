import DeskCalculator.Json.Numeral
import DeskCalculator.Json.Token
import DeskCalculator.Json.Write
import DeskCalculator.Proofs.Json.Parts
import Mathlib.Data.List.TakeWhile

/-!
# Written numbers

An integer of 64 bits is read back from its digits as an integer. The text of a double holds nothing
but digits, a point, signs and the letter of the exponent, and so is read as a whole.
-/

namespace DeskCalculator.Json

theorem isBareChar_of_isDigit {c : Char} (h : c.isDigit) : isBareChar c := by
  simp [isBareChar, Char.isAlphanum, h]

theorem isDigit_or_eq_of_mem_integerText {n : Int} {c : Char} (h : c ∈ integerText n) :
    c.isDigit ∨ c = '-' := by
  rw [integerText, Number.signText] at h
  rcases List.mem_append.mp h with h | h
  · split at h
    · exact .inr (List.mem_singleton.mp h)
    · cases h
  · exact .inl (Number.isDigit_of_mem_digitsOf h)

/-- Digits are a numeral without point and exponent. -/
private theorem Numeral.read?_integerText (n : Int) :
    Numeral.read? (integerText n) = some ⟨n < 0, Number.digitsOf n.natAbs, none, none⟩ := by
  have hdigits : ∀ c ∈ Number.digitsOf n.natAbs, c.isDigit :=
    fun _ ↦ Number.isDigit_of_mem_digitsOf
  have hhead : (Number.digitsOf n.natAbs).head? ≠ some '-' := by
    intro h
    exact absurd (hdigits '-' (List.mem_of_mem_head? h)) (by decide)
  have hleading : ¬ (Number.digitsOf n.natAbs = [] ∨ (Number.digitsOf n.natAbs).head? = some '0' ∧
      (Number.digitsOf n.natAbs).length ≠ 1) := by
    rintro (h | ⟨hzero, hlength⟩)
    · exact Number.digitsOf_ne_nil _ h
    · rw [Number.eq_zero_of_head?_digitsOf hzero] at hlength
      exact hlength rfl
  have hsign : integerText n = Number.signText (n < 0) ++ Number.digitsOf n.natAbs := rfl
  rw [Numeral.read?, hsign]
  by_cases hn : n < 0
  · simp [Number.signText, hn, List.takeWhile_eq_self_iff.mpr hdigits,
      List.dropWhile_eq_nil_iff.mpr hdigits, hleading, readTail?]
  · simp [Number.signText, hn, hhead, List.takeWhile_eq_self_iff.mpr hdigits,
      List.dropWhile_eq_nil_iff.mpr hdigits, hleading, readTail?]

/-- An integer of 64 bits is read back. -/
theorem bareValue?_integerText {n : Int} (h : isInteger64 n) :
    bareValue? (integerText n) = some (integer n) := by
  have hword {c : Char} {cs : List Char} (hc : c.isDigit = false ∧ c ≠ '-') (hmem : c ∈ cs) :
      integerText n ≠ cs := by
    rintro rfl
    rcases isDigit_or_eq_of_mem_integerText hmem with hdigit | rfl
    · rw [hc.1] at hdigit
      cases hdigit
    · exact hc.2 rfl
  rw [bareValue?, if_neg (hword (c := 'n') (by decide) (by decide)),
    if_neg (hword (c := 't') (by decide) (by decide)),
    if_neg (hword (c := 'f') (by decide) (by decide)), Numeral.read?_integerText, Option.map_some]
  rw [isInteger64, Bool.and_eq_true, decide_eq_true_iff, decide_eq_true_iff] at h
  unfold Numeral.value
  rw [Number.valueOf_digitsOf]
  by_cases hn : n < 0
  · have hpos : 0 < n.natAbs := by omega
    have hle : n.natAbs ≤ 2 ^ 63 := by omega
    have hneg : -(n.natAbs : Int) = n := by omega
    rw [if_neg (by simp [hn]), if_pos (by simpa [hn, hpos] using hle), hneg]
  · have hlt : n.natAbs < 2 ^ 64 := by omega
    have hnonneg : (n.natAbs : Int) = n := by omega
    rw [if_pos (by simpa [hn] using hlt), hnonneg]

/-- Integers that are read have 64 bits. -/
theorem Numeral.isInteger64_of_value {n : Numeral} {m : Int} (h : n.value = integer m) :
    isInteger64 m := by
  unfold Numeral.value at h
  dsimp only at h
  split at h
  · next hrange =>
    simp only [Bool.and_eq_true, decide_eq_true_iff] at hrange
    cases h
    simp [isInteger64]
    omega
  · split at h
    · next hrange =>
      simp only [Bool.and_eq_true, decide_eq_true_iff] at hrange
      cases h
      simp [isInteger64]
      omega
    · split at h
      · cases h
      · cases h

/-! ### Doubles -/

theorem isBareChar_of_mem_digitsOf {n : Nat} : ∀ c ∈ Number.digitsOf n, isBareChar c :=
  fun _ hc ↦ isBareChar_of_isDigit (Number.isDigit_of_mem_digitsOf hc)

/-- Nothing but digits and a point is written without an exponent. -/
private theorem isBareChar_of_mem_positionalText {kept : List Char}
    (hkept : ∀ c ∈ kept, isBareChar c)
    (exponent : Int) : ∀ c ∈ Number.positionalText kept exponent, isBareChar c := by
  have hzeros (n : Nat) : ∀ c ∈ List.replicate n '0', isBareChar c := by
    intro c hc
    rw [List.eq_of_mem_replicate hc]
    rfl
  unfold Number.positionalText
  dsimp only
  split
  · simp only [List.forall_mem_append]
    exact ⟨⟨hkept, hzeros _⟩, List.all_eq_true.mp rfl⟩
  · split
    · rw [List.forall_mem_append, List.forall_mem_cons]
      exact ⟨fun c hc ↦ hkept c (List.mem_of_mem_take hc), rfl,
        fun c hc ↦ hkept c (List.mem_of_mem_drop hc)⟩
    · simp only [List.forall_mem_append]
      exact ⟨⟨List.all_eq_true.mp rfl, hzeros _⟩, hkept⟩

/-- Nothing but digits, a point, the letter of the exponent and its sign is written with one. -/
private theorem isBareChar_of_mem_exponentText {kept : List Char} (hkept : ∀ c ∈ kept, isBareChar c)
    (exponent : Int) : ∀ c ∈ Number.exponentText kept exponent, isBareChar c := by
  unfold Number.exponentText
  dsimp only
  rw [List.forall_mem_append, List.forall_mem_cons, List.forall_mem_cons]
  refine ⟨?_, rfl, ?_, isBareChar_of_mem_digitsOf⟩
  · split
    · exact hkept
    · obtain ⟨hd, hds⟩ := List.forall_mem_cons.mp hkept
      rw [List.forall_mem_cons, List.forall_mem_cons]
      exact ⟨hd, rfl, hds⟩
    · exact List.all_eq_true.mp rfl
  · split
    · rfl
    · rfl

private theorem isBareChar_of_mem_significantDigits (digits : Nat) (exponent : Int) :
    ∀ c ∈ (Number.significantDigits digits exponent).1, isBareChar c := by
  intro c hc
  have hmem : c ∈ (Number.digitsOf digits).reverse :=
    (List.dropWhile_sublist _).subset (List.mem_reverse.mp hc)
  exact isBareChar_of_mem_digitsOf c (List.mem_reverse.mp hmem)

private theorem isBareChar_of_mem_scaledMagnitudeText (tie : Number.Tie) (bits : Nat) :
    ∀ c ∈ Number.scaledMagnitudeText tie bits, isBareChar c := by
  rw [Number.scaledMagnitudeText]
  by_cases hzero : bits = 0
  · rw [if_pos hzero]
    exact List.all_eq_true.mp rfl
  · rw [if_neg hzero]
    obtain ⟨digits, exponent⟩ := Number.shortestDigits tie bits
    dsimp only
    split
    · exact isBareChar_of_mem_positionalText (isBareChar_of_mem_significantDigits _ _) _
    · exact isBareChar_of_mem_exponentText (isBareChar_of_mem_significantDigits _ _) _

/-- The text of a double is read as a whole. -/
theorem isBareChar_of_mem_floatText (x : Float) : ∀ c ∈ floatText x, isBareChar c := by
  rw [floatText, List.forall_mem_append]
  constructor
  · rw [Number.signText]
    split
    · exact List.all_eq_true.mp rfl
    · exact List.forall_mem_nil _
  · exact isBareChar_of_mem_scaledMagnitudeText _ _

end DeskCalculator.Json
