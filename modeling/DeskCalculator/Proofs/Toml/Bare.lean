import DeskCalculator.Proofs.Number.Shortest
import DeskCalculator.Settings.Config

/-!
# Bare values are read back

Truth values, natural numbers of 63 bits and doubles are written as runs of bare characters, and
each such run is read as the value it was written for. None of them looks like a date or a time: a
date has a minus sign behind four digits, and a time has a colon.
-/

namespace DeskCalculator.Toml

open Number (SpellsMagnitude infinityBits splitSign)

/-! ### Digits -/

theorem isBareChar_of_isDigit {c : Char} (h : c.isDigit) : isBareChar c := by
  simp [isBareChar, Char.isAlphanum, h]

/-- Digits without underscores are left as they are. -/
theorem stripUnderscores?_digits {ds : List Char} (hdigits : ∀ c ∈ ds, c.isDigit)
    {afterDigit : Bool} (h : ds ≠ [] ∨ afterDigit) :
    stripUnderscores? Char.isDigit afterDigit ds = some ds := by
  induction ds generalizing afterDigit with
  | nil => exact if_pos (h.resolve_left (fun hne ↦ hne rfl))
  | cons c ds ih =>
    obtain ⟨hc, hds⟩ := List.forall_mem_cons.mp hdigits
    rw [stripUnderscores?, if_pos hc, ih hds (.inr rfl)]
    rfl

/-- Digits are a decimal integer unless a zero stands before others. -/
theorem decimalDigits?_digits {ds : List Char} (hdigits : ∀ c ∈ ds, c.isDigit) (hne : ds ≠ [])
    (hzero : ds.head? = some '0' → ds.length = 1) : decimalDigits? ds = some ds := by
  rw [decimalDigits?, if_neg fun h ↦ h.2 (hzero h.1), stripUnderscores?_digits hdigits (.inl hne)]

private theorem splitSign_signText (negative : Bool) {body : List Char} {c : Char}
    (hhead : body.head? = some c) (hc : c.isDigit) :
    splitSign (Number.signText negative ++ body) = (negative, body) := by
  cases negative with
  | true => rfl
  | false =>
    change splitSign body = (false, body)
    unfold splitSign
    split
    · cases hhead
      cases hc
    · cases hhead
      cases hc
    · rfl

/-! ### Neither date nor time -/

section

variable {run : List Char}

/-- A run without a minus sign behind its first character and without a colon is neither a date nor
a time. -/
theorem isDatetime_eq_false (hminus : '-' ∉ run.tail) (hcolon : ':' ∉ run) :
    isDatetime run = false := by
  have hdate : skipDate? run = none := by
    unfold skipDate?
    split
    · exact absurd (by simp) hminus
    · rfl
  have htime : skipTime? run = none := by
    unfold skipTime?
    split
    · exact absurd (by simp) hcolon
    · rfl
  rw [isDatetime, hdate, htime]
  rfl

/-- So it is no date if it holds digits and points only. -/
theorem isDatetime_signText_eq_false (negative : Bool)
    (h : ∀ c ∈ run, c.isDigit ∨ c = '.') :
    isDatetime (Number.signText negative ++ run) = false := by
  have hnot {c : Char} (hc : c.isDigit = false ∧ c ≠ '.') : c ∉ run := fun hmem ↦ by
    rcases h c hmem with hdigit | rfl
    · rw [hc.1] at hdigit
      cases hdigit
    · exact hc.2 rfl
  have hminus : '-' ∉ run := hnot (by decide)
  have hcolon : ':' ∉ run := hnot (by decide)
  cases negative with
  | true => exact isDatetime_eq_false hminus (by simpa [Number.signText] using hcolon)
  | false => exact isDatetime_eq_false (fun hmem ↦ hminus (List.mem_of_mem_tail hmem)) hcolon

end

/-! ### Numerals -/

section

variable {whole fraction : List Char}

private theorem isExponentMark_eq_false {c : Char} (h : c.isDigit ∨ c = '.') :
    isExponentMark c = false := by
  rcases h with hdigit | rfl
  · have hsmall : c ≠ 'e' := Buffer.ne_of_isDigit hdigit rfl
    have hcapital : c ≠ 'E' := Buffer.ne_of_isDigit hdigit rfl
    simp [isExponentMark, hsmall, hcapital]
  · rfl

/-- Digits and points without an exponent are a float if there is a point. -/
theorem readFloat?_numeral (negative : Bool) {body : List Char} {c : Char}
    (hhead : body.head? = some c) (hc : c.isDigit) (h : ∀ d ∈ body, d.isDigit ∨ d = '.') :
    readFloat? (Number.signText negative ++ body) =
      if body.dropWhile (· != '.') = [] then none
      else (do
        let whole ← decimalDigits? (body.takeWhile (· != '.'))
        let fraction ← stripUnderscores? Char.isDigit false (body.dropWhile (· != '.')).tail
        let x := Number.ofDecimal negative (Number.valueOf (whole ++ fraction)) (-fraction.length)
        if x.isInf && !negative then none else some x) := by
  have hmark : ∀ d ∈ body, (!isExponentMark d) = true := fun d hd ↦ by
    rw [isExponentMark_eq_false (h d hd)]
    rfl
  have hinf : body ≠ ['i', 'n', 'f'] := by
    rintro rfl
    cases hhead
    cases hc
  have hnan : body ≠ ['n', 'a', 'n'] := by
    rintro rfl
    cases hhead
    cases hc
  rw [readFloat?, splitSign_signText negative hhead hc]
  dsimp only
  rw [if_neg hinf, if_neg hnan, List.takeWhile_eq_self_iff.mpr hmark,
    List.dropWhile_eq_nil_iff.mpr hmark]
  by_cases hpoint : body.dropWhile (· != '.') = []
  · rw [if_pos ⟨hpoint, rfl⟩, if_pos hpoint]
    rfl
  · rw [if_neg fun hand ↦ hpoint hand.1, if_neg hpoint]
    simp only [if_neg hpoint, if_true, Option.bind_eq_bind, Option.bind_some, zero_sub]

private theorem forall_mem_of_spells {bits : ℕ} (h : SpellsMagnitude bits whole fraction) :
    ∀ c ∈ whole ++ '.' :: fraction, c.isDigit ∨ c = '.' := by
  rw [List.forall_mem_append, List.forall_mem_cons]
  exact ⟨fun c hc ↦ .inl (h.isDigit_of_mem_whole c hc), .inr rfl,
    fun c hc ↦ .inl (h.isDigit_of_mem_fraction c hc)⟩

/-- Digits on both sides of a point are read as the magnitude that they spell. -/
private theorem readFloat?_spelled (negative : Bool) {bits : ℕ} (hbits : bits < infinityBits)
    (h : SpellsMagnitude bits whole fraction) :
    readFloat? (Number.signText negative ++ (whole ++ '.' :: fraction)) =
      some (Number.ofMagnitude negative bits) := by
  obtain ⟨c, cs, hcons⟩ := List.exists_cons_of_ne_nil h.whole_ne_nil
  have hhead : (whole ++ '.' :: fraction).head? = some c := by rw [hcons]; rfl
  have hbefore : ∀ d ∈ whole, (d != '.') = true := fun d hd ↦ by
    simpa using Buffer.ne_of_isDigit (h.isDigit_of_mem_whole d hd) rfl
  have htake : (whole ++ '.' :: fraction).takeWhile (· != '.') = whole := by
    rw [List.takeWhile_append_of_pos hbefore]
    simp
  have hdrop : (whole ++ '.' :: fraction).dropWhile (· != '.') = '.' :: fraction := by
    rw [List.dropWhile_append_of_pos hbefore]
    rfl
  have hfinite : (Number.ofMagnitude negative bits).isFinite :=
    Number.isFinite_of_magnitudeBits_lt (by rwa [Number.magnitudeBits_ofMagnitude negative hbits])
  rw [readFloat?_numeral negative hhead (h.isDigit_of_mem_whole c (by simp [hcons]))
      (forall_mem_of_spells h), hdrop, if_neg (List.cons_ne_nil _ _), htake,
    decimalDigits?_digits h.isDigit_of_mem_whole h.whole_ne_nil h.length_of_leading_zero,
    List.tail_cons, stripUnderscores?_digits h.isDigit_of_mem_fraction (.inl h.fraction_ne_nil)]
  simp only [Option.bind_eq_bind, Option.bind_some, Number.ofDecimal, h.decimalBits_eq]
  rw [Number.isInf_eq_false_of_isFinite hfinite]
  rfl

end

/-! ### Integers -/

/-- Digits are no float. -/
private theorem readFloat?_digitsOf (n : ℕ) : readFloat? (Number.digitsOf n) = none := by
  have hdigits : ∀ c ∈ Number.digitsOf n, c.isDigit := fun _ ↦ Number.isDigit_of_mem_digitsOf
  obtain ⟨c, ds, hcons⟩ := List.exists_cons_of_ne_nil (Number.digitsOf_ne_nil n)
  have hhead : (Number.digitsOf n).head? = some c := by rw [hcons]; rfl
  have hpoint : ∀ d ∈ Number.digitsOf n, (d != '.') = true := fun d hd ↦ by
    simpa using Buffer.ne_of_isDigit (hdigits d hd) rfl
  have hread := readFloat?_numeral false hhead (hdigits c (by simp [hcons]))
    fun d hd ↦ .inl (hdigits d hd)
  rw [if_pos (List.dropWhile_eq_nil_iff.mpr hpoint)] at hread
  exact hread

/-- Digits are an integer. -/
private theorem readInteger?_digitsOf (n : ℕ) :
    readInteger? (Number.digitsOf n) = some (n : ℤ) := by
  have hdigits : ∀ c ∈ Number.digitsOf n, c.isDigit := fun _ ↦ Number.isDigit_of_mem_digitsOf
  obtain ⟨c, ds, hcons⟩ := List.exists_cons_of_ne_nil (Number.digitsOf_ne_nil n)
  have hhead : (Number.digitsOf n).head? = some c := by rw [hcons]; rfl
  have hsign : splitSign (Number.digitsOf n) = (false, Number.digitsOf n) :=
    splitSign_signText false hhead (hdigits c (by simp [hcons]))
  have hdecimal : decimalDigits? (Number.digitsOf n) = some (Number.digitsOf n) :=
    decimalDigits?_digits hdigits (Number.digitsOf_ne_nil n) fun hzero ↦ by
      rw [Number.eq_zero_of_head?_digitsOf hzero]
      rfl
  unfold readInteger?
  split
  · next heq => cases hdigits 'x' (by simp [heq])
  · next heq => cases hdigits 'o' (by simp [heq])
  · next heq => cases hdigits 'b' (by simp [heq])
  · rw [hsign]
    dsimp only
    rw [hdecimal, Option.map_some, Number.valueOf_digitsOf]
    rfl

/-! ### Values -/

/-- A run that holds no letters is no truth value. -/
theorem readBare?_of_isDatetime_eq_false {run : List Char} (hletter : ∀ c ∈ run, c ≠ 'e')
    (h : isDatetime run = false) :
    readBare? run =
      match readFloat? run with
      | some x => some (float x)
      | none => (readInteger? run).bind fun n ↦
        if -2 ^ 63 ≤ n ∧ n < 2 ^ 63 then some (integer n) else none := by
  have htrue : run ≠ ['t', 'r', 'u', 'e'] := fun heq ↦ hletter 'e' (by simp [heq]) rfl
  have hfalse : run ≠ ['f', 'a', 'l', 's', 'e'] := fun heq ↦ hletter 'e' (by simp [heq]) rfl
  rw [readBare?, if_neg htrue, if_neg hfalse, if_neg (by rw [h]; decide)]
  rfl

/-- An empty run is no value. -/
theorem ne_nil_of_readBare? {run : List Char} {v : Toml} (h : readBare? run = some v) :
    run ≠ [] := by
  rintro rfl
  cases h

theorem readBare?_boolText (b : Bool) : readBare? (Settings.Config.boolText b) = some (bool b) := by
  cases b <;> rfl

/-- A natural number of 63 bits is read back. -/
theorem readBare?_digitsOf {n : ℕ} (h : n < 2 ^ 63) :
    readBare? (Number.digitsOf n) = some (integer n) := by
  have hdigits : ∀ c ∈ Number.digitsOf n, c.isDigit := fun _ ↦ Number.isDigit_of_mem_digitsOf
  have hrange : -2 ^ 63 ≤ (n : ℤ) ∧ (n : ℤ) < 2 ^ 63 := by omega
  rw [readBare?_of_isDatetime_eq_false (fun c hc ↦ Buffer.ne_of_isDigit (hdigits c hc) rfl)
      (isDatetime_signText_eq_false false fun c hc ↦ .inl (hdigits c hc)),
    readFloat?_digitsOf, readInteger?_digitsOf]
  dsimp only
  rw [Option.bind_some, if_pos hrange]

/-- Every double is read back. -/
theorem readBare?_floatText (x : Float) :
    readBare? (Settings.Config.floatText x) = some (float x) := by
  rw [Settings.Config.floatText]
  rcases Nat.lt_trichotomy (Number.magnitudeBits x) infinityBits with hfinite | hinfinite | hnan
  · obtain ⟨whole, fraction, htext, hspells⟩ := Number.exists_plainMagnitude .up hfinite
    have hchars := forall_mem_of_spells hspells
    have hletter : ∀ c ∈ Number.signText (Number.isNegative x) ++ (whole ++ '.' :: fraction),
        c ≠ 'e' := by
      rw [List.forall_mem_append]
      constructor
      · rcases Number.signText_cases (Number.isNegative x) with heq | heq
        · simp [heq]
        · simp [heq]
      · intro c hc
        rcases hchars c hc with hdigit | rfl
        · exact Buffer.ne_of_isDigit hdigit rfl
        · decide
    rw [if_neg (by omega), if_neg (by omega), htext,
      readBare?_of_isDatetime_eq_false hletter (isDatetime_signText_eq_false _ hchars),
      readFloat?_spelled _ hfinite hspells, Number.ofMagnitude_magnitudeBits (Nat.le_of_lt hfinite)]
  · have hx := Number.ofMagnitude_magnitudeBits (Nat.le_of_eq hinfinite)
    obtain ⟨negative, hnegative⟩ : ∃ b, Number.isNegative x = b := ⟨_, rfl⟩
    rw [if_neg (by omega), if_pos hinfinite, hnegative]
    rw [hinfinite, hnegative] at hx
    rw [← hx]
    cases negative with
    | false => rfl
    | true => rfl
  · rw [if_pos hnan, Number.eq_nan hnan]
    rfl

/-- A bare value on a line is read up to the end of the line. -/
theorem readBareValue?_line {run : List Char} (hrun : ∀ c ∈ run, isBareChar c) (rest : List Char) :
    readBareValue? (run ++ '\n' :: rest) = (readBare? run).map (·, '\n' :: rest) := by
  have htake : (run ++ '\n' :: rest).takeWhile isBareChar = run := by
    rw [List.takeWhile_append_of_pos hrun, List.takeWhile_cons, if_neg (by decide), List.append_nil]
  have hdrop : (run ++ '\n' :: rest).dropWhile isBareChar = '\n' :: rest := by
    rw [List.dropWhile_append_of_pos hrun, List.dropWhile_cons, if_neg (by decide)]
  rw [readBareValue?, htake, hdrop]
  rfl

/-- The text of a double is read as a whole. -/
theorem isBareChar_of_mem_floatText (x : Float) :
    ∀ c ∈ Settings.Config.floatText x, isBareChar c := by
  rw [Settings.Config.floatText]
  split
  · exact List.all_eq_true.mp rfl
  · next hnumber =>
    rw [List.forall_mem_append]
    constructor
    · rcases Number.signText_cases (Number.isNegative x) with heq | heq
      · simp [heq]
      · rw [heq]
        exact List.all_eq_true.mp rfl
    · split
      · exact List.all_eq_true.mp rfl
      · next hfinite =>
        have hlt : Number.magnitudeBits x < infinityBits := by omega
        obtain ⟨whole, fraction, htext, hspells⟩ := Number.exists_plainMagnitude .up hlt
        rw [htext]
        intro c hc
        rcases forall_mem_of_spells hspells c hc with hdigit | rfl
        · exact isBareChar_of_isDigit hdigit
        · rfl

end DeskCalculator.Toml
