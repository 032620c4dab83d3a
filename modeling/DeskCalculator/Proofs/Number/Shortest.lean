import DeskCalculator.Number.Shortest
import DeskCalculator.Proofs.Number.FixedPoint
import DeskCalculator.Proofs.Number.Range

/-!
# The fewest digits read back

A decimal is read by one rule, whether its power of ten is great or small, and that rule does not
see zeros at the end. So every text of the shortest digits reads as the double they were found for:
the search tests each candidate, and all digits of a double are the double itself.
-/

namespace DeskCalculator.Number

/-! ### The rule for decimals -/

section

variable {n d c : ℕ}

private theorem compare_mul_left (hc : 0 < c) (a b : ℕ) :
    compare (c * a) (c * b) = compare a b := by
  rcases Nat.lt_trichotomy a b with h | rfl | h
  · rw [Nat.compare_eq_lt.mpr h, Nat.compare_eq_lt.mpr (Nat.mul_lt_mul_of_pos_left h hc)]
  · rw [Nat.compare_eq_eq.mpr rfl, Nat.compare_eq_eq.mpr rfl]
  · rw [Nat.compare_eq_gt.mpr h, Nat.compare_eq_gt.mpr (Nat.mul_lt_mul_of_pos_left h hc)]

/-- The nearest double depends on the quotient only. -/
theorem nearestBits_mul_left (hc : 0 < c) (n d : ℕ) :
    nearestBits (c * n) (c * d) = nearestBits n d := by
  have hscaled : c * n * 2 ^ unitExponent = c * (n * 2 ^ unitExponent) := Nat.mul_assoc ..
  have hdouble : 2 * (c * (n * 2 ^ unitExponent)) = c * (2 * (n * 2 ^ unitExponent)) :=
    Nat.mul_left_comm ..
  unfold nearestBits
  dsimp only
  rw [hscaled, Nat.mul_div_mul_left _ _ hc, hdouble, Nat.mul_assoc c d, compare_mul_left hc]

/-- What is not below the magnitude of infinity is infinite. -/
private theorem nearestBits_of_units_infinityBits_le
    (h : units infinityBits ≤ n * 2 ^ unitExponent / d) : nearestBits n d = infinityBits := by
  have hfloor := lt_units_floorBits_succ (n * 2 ^ unitExponent / d)
  have hlt := units_strictMono.lt_iff_lt.mp (Nat.lt_of_le_of_lt h hfloor)
  rw [nearestBits, if_pos (Nat.le_of_lt_succ hlt)]

/-- What is less than half of the smallest double is zero. -/
private theorem nearestBits_of_lt (h : 2 * (n * 2 ^ unitExponent) < d) : nearestBits n d = 0 := by
  have hfloor : floorBits (n * 2 ^ unitExponent / d) = 0 := by
    rw [Nat.div_eq_of_lt (by omega)]
    rfl
  have hone : units 0 + units (0 + 1) = 1 := rfl
  unfold nearestBits
  dsimp only
  rw [hfloor, if_neg (by decide), hone, Nat.mul_one, Nat.compare_eq_lt.mpr h]

end

/-- A decimal too small for a double is below half of the smallest one. -/
private theorem two_mul_lt_pow {digits k : ℕ} (h : digits.log2 + 1100 ≤ 3 * k) :
    2 * (digits * 2 ^ unitExponent) < 10 ^ k := by
  calc
    2 * (digits * 2 ^ unitExponent) < 2 * (2 ^ (digits.log2 + 1) * 2 ^ unitExponent) :=
      Nat.mul_lt_mul_of_pos_left
        (Nat.mul_lt_mul_of_pos_right Nat.lt_log2_self (Nat.two_pow_pos _)) (by decide)
    _ = 2 ^ (digits.log2 + 1 + unitExponent + 1) := by
      rw [← Nat.pow_add, Nat.pow_succ 2 (digits.log2 + 1 + unitExponent), Nat.mul_comm]
    _ ≤ 2 ^ (3 * k) := Nat.pow_le_pow_right (by decide) (by unfold unitExponent; omega)
    _ = 8 ^ k := Nat.pow_mul 2 3 k
    _ ≤ 10 ^ k := Nat.pow_le_pow_left (by decide) k

/-- The early answers are those of the general rule. -/
private theorem decimalBits_eq_nearestBits (digits : ℕ) (e : ℤ) :
    decimalBits digits e = nearestBits (digits * 10 ^ e.toNat) (10 ^ (-e).toNat) := by
  unfold decimalBits
  split
  · next hzero => rw [hzero, Nat.zero_mul, nearestBits_zero (Nat.pow_pos (by decide))]
  · next hpos =>
    split
    · next hlarge =>
      have hone : (-e).toNat = 0 := by omega
      have hinfinity : units infinityBits ≤ 10 ^ (greatestPower + 2) * 2 ^ unitExponent := by
        decide +kernel
      rw [hone, Nat.pow_zero]
      refine (nearestBits_of_units_infinityBits_le ?_).symm
      rw [Nat.div_one]
      calc
        units infinityBits ≤ 10 ^ (greatestPower + 2) * 2 ^ unitExponent := hinfinity
        _ ≤ 10 ^ e.toNat * 2 ^ unitExponent :=
          Nat.mul_le_mul_right _ (Nat.pow_le_pow_right (by decide) (by unfold greatestPower; omega))
        _ ≤ digits * 10 ^ e.toNat * 2 ^ unitExponent :=
          Nat.mul_le_mul_right _ (Nat.le_mul_of_pos_left _ (Nat.pos_of_ne_zero hpos))
    · split
      · next hsmall =>
        have hone : e.toNat = 0 := by omega
        rw [hone, Nat.pow_zero, Nat.mul_one]
        exact (nearestBits_of_lt (two_mul_lt_pow (by omega))).symm
      · rfl

/-- A decimal is read as the double nearest to it, however its power of ten is written. -/
theorem decimalBits_sub (digits a b : ℕ) :
    decimalBits digits (a - b) = nearestBits (digits * 10 ^ a) (10 ^ b) := by
  obtain ⟨c, hc⟩ : ∃ c, min a b = c := ⟨_, rfl⟩
  have ha : a = c + ((a : ℤ) - b).toNat := by omega
  have hb : b = c + (-((a : ℤ) - b)).toNat := by omega
  have hpow : 0 < 10 ^ c := Nat.pow_pos (by decide)
  rw [decimalBits_eq_nearestBits, ← nearestBits_mul_left hpow, Nat.mul_left_comm, ← Nat.pow_add,
    ← Nat.pow_add, ← ha, ← hb]

/-- Zeros at the end of the digits are as good as an exponent. -/
theorem decimalBits_mul_pow (digits k : ℕ) (e : ℤ) :
    decimalBits (digits * 10 ^ k) e = decimalBits digits (e + k) := by
  obtain ⟨a, b, rfl⟩ : ∃ a b : ℕ, e = a - b := ⟨e.toNat, (-e).toNat, by omega⟩
  have hsum : (a : ℤ) - b + k = ((k + a : ℕ) : ℤ) - b := by omega
  rw [hsum, decimalBits_sub, decimalBits_sub, Nat.mul_assoc, ← Nat.pow_add]

/-! ### All digits of a double -/

section

variable {bits : ℕ}

/-- Nothing is nearer to a double than itself. -/
private theorem nearestBits_units (h : bits < infinityBits) :
    nearestBits (units bits) (2 ^ unitExponent) = bits := by
  have hunit : 0 < 2 ^ unitExponent := Nat.two_pow_pos _
  have hfloor : floorBits (units bits) = bits := by
    have hle := units_strictMono.le_iff_le.mp (units_floorBits_le (units bits))
    have hlt := units_strictMono.lt_iff_lt.mp (lt_units_floorBits_succ (units bits))
    omega
  have hmiddle : 2 * (units bits * 2 ^ unitExponent) <
      2 ^ unitExponent * (units bits + units (bits + 1)) := by
    rw [Nat.mul_comm (units bits), Nat.mul_left_comm]
    have hnext := units_lt_units_succ bits
    exact Nat.mul_lt_mul_of_pos_left (by omega) hunit
  unfold nearestBits
  dsimp only
  rw [Nat.mul_div_cancel _ hunit, hfloor, if_neg (Nat.not_le_of_lt h),
    Nat.compare_eq_lt.mpr hmiddle]

/-- All digits of a double read back. -/
private theorem decimalBits_exactDigits (h : bits < infinityBits) :
    decimalBits (exactDigits bits) (droppedExponent 0) = bits := by
  have hten (k : ℕ) : 10 ^ k = 5 ^ k * 2 ^ k := Nat.mul_pow 5 2 k
  have hexponent : droppedExponent 0 = ((0 : ℕ) : ℤ) - unitExponent := rfl
  rw [hexponent, decimalBits_sub, Nat.pow_zero, Nat.mul_one, exactDigits, hten,
    Nat.mul_comm (units bits), nearestBits_mul_left (Nat.pow_pos (by decide)), nearestBits_units h]

/-! ### The search -/

private theorem nearerOf_cases (tie : Tie) (exact lower dropped : ℕ) :
    nearerOf tie exact lower dropped = lower ∨ nearerOf tie exact lower dropped = lower + 1 := by
  unfold nearerOf
  split
  · exact .inl rfl
  · exact .inr rfl
  · cases tie with
    | even =>
      rcases Nat.mod_two_eq_zero_or_one lower with heven | hodd
      · exact .inl (by rw [heven]; rfl)
      · exact .inr (by rw [hodd])
    | up => exact .inr rfl

/-- Every candidate reads back. -/
private theorem readsBack_of_candidate? {tie : Tie} {exact dropped digits : ℕ}
    (h : candidate? tie bits exact dropped = some digits) : readsBack bits digits dropped := by
  unfold candidate? at h
  dsimp only at h
  split at h
  · next hlower hupper =>
    cases h
    rcases nearerOf_cases tie exact (exact / 10 ^ dropped) dropped with heq | heq
    · rw [heq, hlower]
    · rw [heq, hupper]
  · next hlower hupper =>
    cases h
    exact hlower
  · next hlower hupper =>
    cases h
    exact hupper
  · cases h

/-- The search ends at digits that read back. -/
private theorem decimalBits_searchDigits (tie : Tie) (h : bits < infinityBits) (dropped : ℕ) :
    decimalBits (searchDigits tie bits (exactDigits bits) dropped).1
      (searchDigits tie bits (exactDigits bits) dropped).2 = bits := by
  induction dropped with
  | zero => exact decimalBits_exactDigits h
  | succ dropped ih =>
    rw [searchDigits]
    split
    · next digits hcandidate => exact of_decide_eq_true (readsBack_of_candidate? hcandidate)
    · exact ih

/-- The shortest digits read back. -/
private theorem decimalBits_shortestDigits (tie : Tie) (h : bits < infinityBits) :
    decimalBits (shortestDigits tie bits).1 (shortestDigits tie bits).2 = bits :=
  decimalBits_searchDigits tie h _

end

/-! ### The text -/

/-- Whether the digits before and after a point spell a magnitude: there are some on both sides,
and no zero stands before others. -/
structure SpellsMagnitude (bits : ℕ) (whole fraction : List Char) : Prop where
  isDigit_of_mem_whole : ∀ c ∈ whole, c.isDigit
  isDigit_of_mem_fraction : ∀ c ∈ fraction, c.isDigit
  whole_ne_nil : whole ≠ []
  fraction_ne_nil : fraction ≠ []
  length_of_leading_zero : whole.head? = some '0' → whole.length = 1
  decimalBits_eq : decimalBits (valueOf (whole ++ fraction)) (-fraction.length) = bits

/-- Significant digits denote the same number, and do not begin with a zero. -/
private theorem significantDigits_spec {digits : ℕ} (hpos : digits ≠ 0) (e : ℤ) :
    (∀ c ∈ (significantDigits digits e).1, c.isDigit) ∧
      (significantDigits digits e).1 ≠ [] ∧
      (significantDigits digits e).1.head? ≠ some '0' ∧
      decimalBits (valueOf (significantDigits digits e).1) (significantDigits digits e).2 =
        decimalBits digits e := by
  obtain ⟨k, hk⟩ := exists_dropTrailing_append '0' (digitsOf digits)
  obtain ⟨kept, hkept⟩ : ∃ kept, dropTrailing '0' (digitsOf digits) = kept := ⟨_, rfl⟩
  have hsplit : significantDigits digits e =
      (kept, e + ((digitsOf digits).length - kept.length : ℕ)) := by
    rw [← hkept]
    rfl
  rw [hkept] at hk
  have hlength : (digitsOf digits).length - kept.length = k := by
    rw [hk, List.length_append, List.length_replicate]
    omega
  have hvalue : valueOf kept * 10 ^ k = digits := by
    rw [← valueOf_append_zeros, ← hk, valueOf_digitsOf]
  have hne : kept ≠ [] := by
    rintro rfl
    exact hpos (hvalue ▸ Nat.zero_mul _)
  rw [hsplit, hlength]
  refine ⟨fun c hc ↦ ?_, hne, fun hzero ↦ ?_, ?_⟩
  · exact isDigit_of_mem_digitsOf (hk ▸ List.mem_append_left _ hc)
  · refine hpos (eq_zero_of_head?_digitsOf ?_)
    rw [hk, List.head?_append, hzero]
    rfl
  · rw [← decimalBits_mul_pow, hvalue]

private theorem isDigit_of_mem_zeros {k : ℕ} : ∀ c ∈ List.replicate k '0', c.isDigit := by
  intro c hc
  rw [List.eq_of_mem_replicate hc]
  rfl

section

variable {kept : List Char} (hdigits : ∀ c ∈ kept, c.isDigit) (hne : kept ≠ [])

include hdigits hne

/-- Zeros from the digits up to the point. -/
private theorem spellsMagnitude_trailing (hhead : kept.head? ≠ some '0') {e : ℤ} (he : 0 ≤ e) :
    SpellsMagnitude (decimalBits (valueOf kept) e) (kept ++ List.replicate e.toNat '0') ['0'] where
  isDigit_of_mem_whole := List.forall_mem_append.mpr ⟨hdigits, isDigit_of_mem_zeros⟩
  isDigit_of_mem_fraction := List.forall_mem_singleton.mpr rfl
  whole_ne_nil := List.append_ne_nil_of_left_ne_nil hne _
  fraction_ne_nil := List.cons_ne_nil _ _
  length_of_leading_zero hzero := by
    rw [List.head?_append, Option.or_of_isSome (List.isSome_head?.mpr hne)] at hzero
    exact absurd hzero hhead
  decimalBits_eq := by
    have hvalue : valueOf (kept ++ List.replicate e.toNat '0' ++ ['0']) =
        valueOf kept * 10 ^ (e.toNat + 1) := by
      rw [List.append_assoc, ← List.replicate_succ', valueOf_append_zeros]
    rw [hvalue, decimalBits_mul_pow, List.length_singleton]
    congr 1
    omega

omit hne in
/-- Digits on both sides of the point. -/
private theorem spellsMagnitude_around (hhead : kept.head? ≠ some '0') {n : ℕ} (hpos : 0 < n)
    (hlt : n < kept.length) :
    SpellsMagnitude (decimalBits (valueOf kept) (n - kept.length)) (kept.take n) (kept.drop n) where
  isDigit_of_mem_whole c hc := hdigits c (List.mem_of_mem_take hc)
  isDigit_of_mem_fraction c hc := hdigits c (List.mem_of_mem_drop hc)
  whole_ne_nil := List.ne_nil_of_length_pos (by rw [List.length_take]; omega)
  fraction_ne_nil := List.ne_nil_of_length_pos (by rw [List.length_drop]; omega)
  length_of_leading_zero hzero := by
    rw [List.head?_take, if_neg (Nat.ne_of_gt hpos)] at hzero
    exact absurd hzero hhead
  decimalBits_eq := by
    rw [List.take_append_drop, List.length_drop]
    congr 1
    omega

/-- Zeros from the point up to the digits. -/
private theorem spellsMagnitude_leading (n : ℕ) :
    SpellsMagnitude (decimalBits (valueOf kept) (-(n + kept.length : ℕ))) ['0']
      (List.replicate n '0' ++ kept) where
  isDigit_of_mem_whole := List.forall_mem_singleton.mpr rfl
  isDigit_of_mem_fraction := List.forall_mem_append.mpr ⟨isDigit_of_mem_zeros, hdigits⟩
  whole_ne_nil := List.cons_ne_nil _ _
  fraction_ne_nil := List.append_ne_nil_of_right_ne_nil _ hne
  length_of_leading_zero _ := rfl
  decimalBits_eq := by
    have hvalue : valueOf (['0'] ++ (List.replicate n '0' ++ kept)) = valueOf kept := by
      rw [← List.append_assoc, List.singleton_append, ← List.replicate_succ, valueOf_append,
        valueOf, Nat.ofDigitChars_replicate_zero, Nat.mul_zero, Nat.zero_mul, Nat.zero_add]
    rw [hvalue, List.length_append, List.length_replicate]

/-- Digits around a point spell the number that they are written for. -/
private theorem exists_positionalText (hhead : kept.head? ≠ some '0') (e : ℤ) :
    ∃ whole fraction, positionalText kept e = whole ++ '.' :: fraction ∧
      SpellsMagnitude (decimalBits (valueOf kept) e) whole fraction := by
  unfold positionalText
  dsimp only
  split
  · next hwhole => exact ⟨_, _, rfl, spellsMagnitude_trailing hdigits hne hhead hwhole⟩
  split
  · next hnegative hpoint =>
    obtain ⟨n, hn⟩ : ∃ n, ((kept.length : ℤ) + e).toNat = n := ⟨_, rfl⟩
    have he : e = n - kept.length := by omega
    have hspells := spellsMagnitude_around hdigits hhead (n := n) (by omega) (by omega)
    rw [← he] at hspells
    rw [hn]
    exact ⟨_, _, rfl, hspells⟩
  · next hnegative hsmall =>
    obtain ⟨n, hn⟩ : ∃ n, (-((kept.length : ℤ) + e)).toNat = n := ⟨_, rfl⟩
    have he : e = -(n + kept.length : ℕ) := by omega
    have hspells := spellsMagnitude_leading hdigits hne n
    rw [← he] at hspells
    rw [hn]
    exact ⟨_, _, rfl, hspells⟩

end

/-- The shortest text of a magnitude without an exponent spells it. -/
theorem exists_plainMagnitude (tie : Tie) {bits : ℕ} (h : bits < infinityBits) :
    ∃ whole fraction, plainMagnitude tie bits = whole ++ '.' :: fraction ∧
      SpellsMagnitude bits whole fraction := by
  rw [plainMagnitude]
  by_cases hzero : bits = 0
  · rw [if_pos hzero, hzero]
    exact ⟨['0'], ['0'], rfl, List.forall_mem_singleton.mpr rfl, List.forall_mem_singleton.mpr rfl,
      by simp, by simp, fun _ ↦ rfl, rfl⟩
  · rw [if_neg hzero]
    have hshortest := decimalBits_shortestDigits tie h
    obtain ⟨⟨digits, e⟩, heq⟩ : ∃ r, shortestDigits tie bits = r := ⟨_, rfl⟩
    rw [heq] at hshortest ⊢
    have hpos : digits ≠ 0 := by
      rintro rfl
      exact hzero hshortest.symm
    obtain ⟨hdigits, hne, hhead, hvalue⟩ := significantDigits_spec hpos e
    obtain ⟨whole, fraction, htext, hspells⟩ := exists_positionalText hdigits hne hhead
      (significantDigits digits e).2
    rw [hvalue, hshortest] at hspells
    exact ⟨whole, fraction, htext, hspells⟩

end DeskCalculator.Number
