import DeskCalculator.Proofs.Buffer.Typed
import DeskCalculator.Number.Display

/-!
# The text of a result is a plain number

A finite number on the display is digits, perhaps with a minus sign in front and a point between
them.
-/

namespace DeskCalculator.Number

open Float.Model UnpackedFloat

/-- The exponent field of a finite double is not all ones. -/
theorem unpackExponent_ne_of_isFinite {f : Float.Model} (h : f.isFinite) :
    @unpackExponent Format.binary64 f.toBits.toBitVec ≠ -1#11 := by
  intro hexponent
  have hunpack : (UnpackedFloat.unpack Format.binary64 f.toBits.toBitVec).isFinite := h
  delta UnpackedFloat.unpack at hunpack
  rw [if_pos hexponent] at hunpack
  split at hunpack
  · cases hunpack
  · cases hunpack

/-- The exponent field of a bit pattern. -/
private theorem toNat_unpackExponent (bits : UInt64) :
    (@unpackExponent Format.binary64 bits.toBitVec).toNat = bits.toNat / 2 ^ 52 % 2 ^ 11 := by
  simp [unpackExponent, Nat.shiftRight_eq_div_pow]

/-- The exponent field is all ones from the magnitude pattern of infinity on. -/
theorem unpackExponent_eq_iff (bits : UInt64) :
    @unpackExponent Format.binary64 bits.toBitVec = -1#11 ↔
      infinityBits ≤ bits.toNat % 2 ^ 63 := by
  have hbits : bits.toNat < 2 ^ 64 := bits.toNat_lt
  have hones : (-1#11 : BitVec Format.binary64.exponentBits).toNat = 2047 := rfl
  rw [← BitVec.toNat_inj, toNat_unpackExponent, hones, infinityBits]
  omega

/-- The magnitude pattern of a finite double is below that of infinity. -/
theorem magnitudeBits_lt_of_isFinite {x : Float} (h : x.isFinite) :
    magnitudeBits x < infinityBits :=
  Nat.lt_of_not_le fun hle ↦
    unpackExponent_ne_of_isFinite h ((unpackExponent_eq_iff x.toBits).mpr hle)

/-! ### Dropping characters at the end -/

/-- A character at the end goes. -/
private theorem dropTrailing_concat_self (c : Char) (text : List Char) :
    dropTrailing c (text ++ [c]) = dropTrailing c text := by
  simp [dropTrailing]

/-- Nothing before another character goes. -/
theorem dropTrailing_append_cons {c d : Char} (h : d ≠ c) (before after : List Char) :
    dropTrailing c (before ++ d :: after) = before ++ d :: dropTrailing c after := by
  have hd : ([d] ++ before.reverse).dropWhile (· == c) = [d] ++ before.reverse := by
    rw [List.singleton_append, List.dropWhile_cons, if_neg (by simpa using h)]
  rw [dropTrailing, List.reverse_append, List.reverse_cons, List.append_assoc,
    List.dropWhile_append, hd, dropTrailing]
  split
  · next hnil =>
    rw [List.isEmpty_iff.mp hnil]
    simp
  · simp

theorem mem_of_mem_dropTrailing {c d : Char} {text : List Char} (h : d ∈ dropTrailing c text) :
    d ∈ text := by
  rw [dropTrailing, List.mem_reverse] at h
  exact List.mem_reverse.mp ((List.dropWhile_sublist _).mem h)

/-! ### Fixed-point text -/

theorem isDigit_of_mem_paddedDigits {width n : Nat} {c : Char} (h : c ∈ paddedDigits width n) :
    c.isDigit := by
  rcases List.mem_append.mp h with h | h
  · rw [List.eq_of_mem_replicate h]
    rfl
  · exact isDigit_of_mem_digitsOf h

theorem signText_cases (negative : Bool) : signText negative = [] ∨ signText negative = ['-'] := by
  cases negative
  · exact .inl rfl
  · exact .inr rfl

/-- A point with the digits after it, if there are any. -/
def pointed (fraction : List Char) : List Char :=
  if fraction = [] then [] else '.' :: fraction

/-- A number with a point loses the zeros at its end, and the point if they were all that stood
behind it. -/
theorem dropTrailing_point {whole fraction : List Char} (before : List Char) (hne : whole ≠ [])
    (hwhole : ∀ c ∈ whole, c.isDigit) (hfraction : ∀ c ∈ fraction, c.isDigit) :
    dropTrailing '.' (dropTrailing '0' (before ++ (whole ++ '.' :: fraction))) =
      before ++ (whole ++ pointed (dropTrailing '0' fraction)) := by
  rw [← List.append_assoc, dropTrailing_append_cons (by decide), pointed]
  rcases List.eq_nil_or_concat (dropTrailing '0' fraction) with hnil | ⟨kept, c, hconcat⟩
  · obtain ⟨digits, d, rfl⟩ := (List.eq_nil_or_concat whole).resolve_left hne
    have hd : d ≠ '.' := Buffer.ne_of_isDigit (hwhole d (by simp)) rfl
    rw [hnil, if_pos rfl, dropTrailing_concat_self, List.concat_eq_append, ← List.append_assoc,
      dropTrailing_append_cons hd]
    simp [dropTrailing]
  · rw [List.concat_eq_append] at hconcat
    have hc : c ≠ '.' := by
      have hmem : c ∈ dropTrailing '0' fraction := by simp [hconcat]
      exact Buffer.ne_of_isDigit (hfraction c (mem_of_mem_dropTrailing hmem)) rfl
    rw [hconcat, if_neg (by simp), ← List.cons_append, ← List.append_assoc,
      dropTrailing_append_cons hc]
    simp [dropTrailing]

/-- The text of a finite number is a plain number. -/
theorem isPlainNumber_displayText {x : Float} (h : x.isFinite) :
    Buffer.isPlainNumber (displayText x) := by
  have hbits := magnitudeBits_lt_of_isFinite h
  unfold displayText
  dsimp only
  split
  · exact Buffer.isPlainNumber_iff.mpr ⟨_, _, [], by rw [List.append_nil], signText_cases _,
      digitsOf_ne_nil _, fun _ ↦ isDigit_of_mem_digitsOf, .inl rfl⟩
  · split
    · rfl
    · rw [fixedText, if_neg (by omega), if_neg (by omega), placesText, if_neg (by decide),
        dropTrailing_point _ (digitsOf_ne_nil _) (fun _ ↦ isDigit_of_mem_digitsOf)
          (fun _ ↦ isDigit_of_mem_paddedDigits)]
      refine Buffer.isPlainNumber_iff.mpr ⟨_, _, _, rfl, signText_cases _, digitsOf_ne_nil _,
        fun _ ↦ isDigit_of_mem_digitsOf, ?_⟩
      rw [pointed]
      split
      · exact .inl rfl
      · exact .inr ⟨_, rfl, fun _ hc ↦ isDigit_of_mem_paddedDigits (mem_of_mem_dropTrailing hc)⟩

end DeskCalculator.Number
