import DeskCalculator.Buffer.Edit

/-!
# Beginnings of expressions

`Viable b p n` says that a buffer is the beginning of an expression: its end is at the place `p`,
inside `n` open parentheses. The place can be read off the end of the buffer, so the editing
functions, which look at nothing else, find out where a character can be typed.
-/

namespace DeskCalculator.Buffer

open Expression (isLiteralChar)

/-- What the end of a buffer is. -/
inductive Place where
  /-- An operand is due. -/
  | operand
  /-- A number without a point. -/
  | whole
  /-- A number with a point. -/
  | fraction
  /-- A closing parenthesis. -/
  | closed
  deriving DecidableEq

/-- A buffer that is the beginning of an expression, by the place at its end and the number of
parentheses that are open there. -/
inductive Viable : List Char → Place → Nat → Prop where
  | nil : Viable [] .operand 0
  | firstDigit {b : List Char} {n : Nat} {c : Char} (h : Viable b .operand n) (hc : c.isDigit) :
      Viable (b ++ [c]) .whole n
  | nextDigit {b : List Char} {p : Place} {n : Nat} {c : Char} (h : Viable b p n)
      (hp : p = .whole ∨ p = .fraction) (hc : c.isDigit) : Viable (b ++ [c]) p n
  | point {b : List Char} {n : Nat} (h : Viable b .whole n) : Viable (b ++ ['.']) .fraction n
  | negation {b : List Char} {n : Nat} (h : Viable b .operand n) : Viable (b ++ ['-']) .operand n
  | opening {b : List Char} {n : Nat} (h : Viable b .operand n) :
      Viable (b ++ ['(']) .operand (n + 1)
  | operator {b : List Char} {p : Place} {n : Nat} {c : Char} (h : Viable b p n)
      (hp : p ≠ .operand) (hc : isOperatorGlyph c) : Viable (b ++ [c]) .operand n
  | closing {b : List Char} {p : Place} {n : Nat} (h : Viable b p (n + 1)) (hp : p ≠ .operand) :
      Viable (b ++ [')']) .closed n

/-- A buffer that keys can type: the beginning of an expression, and not empty. -/
def Typed (b : List Char) : Prop :=
  b ≠ [] ∧ ∃ p n, Viable b p n

/-! ### The end of a buffer -/

theorem isLiteralChar_of_isDigit {c : Char} (h : c.isDigit) : isLiteralChar c := by
  rw [isLiteralChar, h, Bool.true_or]

private theorem isOperatorGlyph_of_isDigit {c : Char} (h : c.isDigit) :
    isOperatorGlyph c = false := by
  rw [← Bool.not_eq_true]
  intro hoperator
  rcases isOperatorGlyph_cases hoperator with rfl | rfl | rfl | rfl <;> cases h

theorem isLiteralChar_of_isOperatorGlyph {c : Char} (h : isOperatorGlyph c) :
    isLiteralChar c = false := by
  rcases isOperatorGlyph_cases h with rfl | rfl | rfl | rfl <;> decide

@[simp] theorem wantsValue_concat (b : List Char) (c : Char) :
    wantsValue (b ++ [c]) = (isOperatorGlyph c || c == '(') := by
  simp [wantsValue]

@[simp] theorem endsIn_concat (b : List Char) (c d : Char) : endsIn (b ++ [c]) d = (c == d) := by
  simp [endsIn]

theorem trailingNumber_concat (b : List Char) (c : Char) :
    trailingNumber (b ++ [c]) = if isLiteralChar c then trailingNumber b ++ [c] else [] := by
  rw [trailingNumber, List.reverse_append, List.reverse_singleton, List.singleton_append,
    List.takeWhile_cons]
  split
  · rw [List.reverse_cons, trailingNumber]
  · rfl

theorem dropOperators_concat (b : List Char) (c : Char) :
    dropOperators (b ++ [c]) = if isOperatorGlyph c then dropOperators b else b ++ [c] := by
  rw [dropOperators, List.reverse_append, List.reverse_singleton, List.singleton_append,
    List.dropWhile_cons]
  split
  · rw [dropOperators]
  · rw [List.reverse_cons, List.reverse_reverse]

/-- A digit is no character that is no digit. -/
theorem ne_of_isDigit {c d : Char} (hc : c.isDigit) (hd : d.isDigit = false) : c ≠ d := by
  rintro rfl
  rw [hc] at hd
  cases hd

/-- A character that keys other than the percent sign type. -/
def Typable (c : Char) : Prop :=
  isLiteralChar c ∨ isOperatorGlyph c ∨ c = '(' ∨ c = ')'

private theorem typable_of_mem_concat {b : List Char} {c d : Char} (ih : c ∈ b → Typable c)
    (hd : Typable d) (h : c ∈ b ++ [d]) : Typable c := by
  rcases List.mem_append.mp h with hc | hc
  · exact ih hc
  · rwa [List.mem_singleton.mp hc]

namespace Viable

variable {b : List Char} {p : Place} {n : Nat}

/-- A buffer asks for a value exactly where an operand is due. -/
theorem wantsValue_iff (h : Viable b p n) : wantsValue b ↔ p = .operand := by
  cases h with
  | nil => decide
  | firstDigit h hc =>
    simp [isOperatorGlyph_of_isDigit hc, ne_of_isDigit (d := '(') hc rfl]
  | nextDigit h hp hc =>
    rcases hp with rfl | rfl
    all_goals simp [isOperatorGlyph_of_isDigit hc, ne_of_isDigit (d := '(') hc rfl]
  | point h => simp [isOperatorGlyph]
  | negation h => simp [isOperatorGlyph]
  | opening h => simp
  | operator h hp hc => simp [hc]
  | closing h hp => simp [isOperatorGlyph]

/-- A buffer with a value at its end is not empty. -/
theorem ne_nil (h : Viable b p n) (hp : p ≠ .operand) : b ≠ [] := by
  rintro rfl
  exact hp (h.wantsValue_iff.mp rfl)

/-- A buffer ends with a closing parenthesis exactly at that place. -/
theorem endsIn_closing_iff (h : Viable b p n) : endsIn b ')' ↔ p = .closed := by
  cases h with
  | nil => decide
  | firstDigit h hc => simp [ne_of_isDigit (d := ')') hc rfl]
  | nextDigit h hp hc =>
    rcases hp with rfl | rfl
    all_goals simp [ne_of_isDigit (d := ')') hc rfl]
  | point h => simp
  | negation h => simp
  | opening h => simp
  | @operator b p n c h hp hc =>
    have hne : c ≠ ')' := by
      rintro rfl
      cases hc
    simp [hne]
  | closing h hp => simp

/-- No number stands at the end where an operand is due and after a closing parenthesis. -/
theorem trailingNumber_eq_nil_iff (h : Viable b p n) :
    trailingNumber b = [] ↔ p = .operand ∨ p = .closed := by
  cases h with
  | nil => decide
  | firstDigit h hc => simp [trailingNumber_concat, isLiteralChar_of_isDigit hc]
  | nextDigit h hp hc =>
    rcases hp with rfl | rfl
    all_goals simp [trailingNumber_concat, isLiteralChar_of_isDigit hc]
  | point h => simp [trailingNumber_concat, isLiteralChar]
  | negation h => simp [trailingNumber_concat, isLiteralChar]
  | opening h => simp [trailingNumber_concat, isLiteralChar]
  | operator h hp hc => simp [trailingNumber_concat, isLiteralChar_of_isOperatorGlyph hc]
  | closing h hp => simp [trailingNumber_concat, isLiteralChar]

/-- The number at the end has a point exactly at that place. -/
theorem point_mem_trailingNumber_iff (h : Viable b p n) :
    '.' ∈ trailingNumber b ↔ p = .fraction := by
  induction h with
  | nil => decide
  | firstDigit h hc ih =>
    rw [trailingNumber_concat, if_pos (isLiteralChar_of_isDigit hc),
      h.trailingNumber_eq_nil_iff.mpr (.inl rfl)]
    simp [(ne_of_isDigit (d := '.') hc rfl).symm]
  | nextDigit h hp hc ih =>
    rw [trailingNumber_concat, if_pos (isLiteralChar_of_isDigit hc), ← ih]
    simp [(ne_of_isDigit (d := '.') hc rfl).symm]
  | point h ih => simp [trailingNumber_concat, isLiteralChar]
  | negation h ih => simp [trailingNumber_concat, isLiteralChar]
  | opening h ih => simp [trailingNumber_concat, isLiteralChar]
  | operator h hp hc ih => simp [trailingNumber_concat, isLiteralChar_of_isOperatorGlyph hc]
  | closing h hp ih => simp [trailingNumber_concat, isLiteralChar]

/-- A buffer is made of the characters that keys type. -/
theorem typable_of_mem (h : Viable b p n) {c : Char} (hc : c ∈ b) : Typable c := by
  induction h with
  | nil => cases hc
  | firstDigit h hd ih => exact typable_of_mem_concat ih (.inl (isLiteralChar_of_isDigit hd)) hc
  | nextDigit h hp hd ih => exact typable_of_mem_concat ih (.inl (isLiteralChar_of_isDigit hd)) hc
  | point h ih => exact typable_of_mem_concat ih (.inl rfl) hc
  | negation h ih => exact typable_of_mem_concat ih (.inr (.inl rfl)) hc
  | opening h ih => exact typable_of_mem_concat ih (.inr (.inr (.inl rfl))) hc
  | operator h hp hop ih => exact typable_of_mem_concat ih (.inr (.inl hop)) hc
  | closing h hp ih => exact typable_of_mem_concat ih (.inr (.inr (.inr rfl))) hc

/-- A buffer has as many closing parentheses as opening ones, less those that are open. -/
theorem count_opening (h : Viable b p n) : b.count '(' = b.count ')' + n := by
  induction h with
  | nil => rfl
  | firstDigit h hc ih =>
    simp [ih, ne_of_isDigit (d := '(') hc rfl, ne_of_isDigit (d := ')') hc rfl]
  | nextDigit h hp hc ih =>
    simp [ih, ne_of_isDigit (d := '(') hc rfl, ne_of_isDigit (d := ')') hc rfl]
  | point h ih => simp [ih]
  | negation h ih => simp [ih]
  | opening h ih =>
    simp [ih]
    omega
  | @operator b p n c h hp hc ih =>
    have hopening : c ≠ '(' := by
      rintro rfl
      cases hc
    have hclosing : c ≠ ')' := by
      rintro rfl
      cases hc
    simp [ih, hopening, hclosing]
  | closing h hp ih =>
    simp [ih]
    omega

/-! ### Shorter buffers -/

/-- Without its last character a buffer is still the beginning of an expression. -/
theorem dropLast (h : Viable b p n) : ∃ q m, Viable b.dropLast q m := by
  cases h with
  | nil => exact ⟨_, _, .nil⟩
  | firstDigit h | nextDigit h | point h | negation h | opening h | operator h | closing h =>
    exact ⟨_, _, by rwa [List.dropLast_concat]⟩

/-- A lone zero at the end stands where an operand is due. -/
theorem dropLast_of_zero (h : Viable b p n) (hzero : trailingNumber b = ['0']) :
    Viable b.dropLast .operand n := by
  cases h with
  | nil => cases hzero
  | firstDigit h hc => rwa [List.dropLast_concat]
  | @nextDigit b p n c h hp hc =>
    rw [trailingNumber_concat, if_pos (isLiteralChar_of_isDigit hc)] at hzero
    have hnil : trailingNumber b = [] :=
      (List.append_inj' (show trailingNumber b ++ [c] = [] ++ ['0'] from hzero) rfl).1
    rcases hp with rfl | rfl
    · simp [h.trailingNumber_eq_nil_iff] at hnil
    · simp [h.trailingNumber_eq_nil_iff] at hnil
  | point h => simp [trailingNumber_concat, isLiteralChar, List.append_eq_singleton_iff] at hzero
  | negation h => simp [trailingNumber_concat, isLiteralChar] at hzero
  | opening h => simp [trailingNumber_concat, isLiteralChar] at hzero
  | operator h hp hc =>
    simp [trailingNumber_concat, isLiteralChar_of_isOperatorGlyph hc] at hzero
  | closing h hp => simp [trailingNumber_concat, isLiteralChar] at hzero

/-- Before the operators at its end a buffer has a value, unless it is empty there or ends with an
opening parenthesis. -/
theorem exists_dropOperators (h : Viable b p n) (hne : dropOperators b ≠ [])
    (hopening : endsIn (dropOperators b) '(' = false) :
    ∃ q m, Viable (dropOperators b) q m ∧ q ≠ .operand := by
  induction h with
  | nil => exact absurd rfl hne
  | firstDigit h hc ih =>
    rw [dropOperators_concat, if_neg (by simp [isOperatorGlyph_of_isDigit hc])]
    exact ⟨_, _, .firstDigit h hc, by simp⟩
  | nextDigit h hp hc ih =>
    rw [dropOperators_concat, if_neg (by simp [isOperatorGlyph_of_isDigit hc])]
    refine ⟨_, _, .nextDigit h hp hc, ?_⟩
    rcases hp with rfl | rfl <;> simp
  | point h ih =>
    rw [dropOperators_concat, if_neg (by decide)]
    exact ⟨_, _, .point h, by simp⟩
  | negation h ih =>
    rw [dropOperators_concat, if_pos (by decide)] at hne hopening ⊢
    exact ih hne hopening
  | opening h ih =>
    rw [dropOperators_concat, if_neg (by decide), endsIn_concat] at hopening
    cases hopening
  | operator h hp hc ih =>
    rw [dropOperators_concat, if_pos hc] at hne hopening ⊢
    exact ih hne hopening
  | closing h hp ih =>
    rw [dropOperators_concat, if_neg (by decide)]
    exact ⟨_, _, .closing h hp, by simp⟩

/-! ### Longer buffers -/

/-- Digits go on with a number. -/
theorem append_digits (h : Viable b p n) (hp : p = .whole ∨ p = .fraction) {run : List Char}
    (hrun : ∀ c ∈ run, c.isDigit) : Viable (b ++ run) p n := by
  induction run generalizing b with
  | nil => rwa [List.append_nil]
  | cons c run ih =>
    rw [List.append_cons]
    exact ih (.nextDigit h hp (hrun c (by simp))) fun d hd ↦ hrun d (by simp [hd])

/-- Digits begin a number where an operand is due. -/
theorem append_number (h : Viable b .operand n) {run : List Char} (hne : run ≠ [])
    (hrun : ∀ c ∈ run, c.isDigit) : Viable (b ++ run) .whole n := by
  obtain ⟨c, run, rfl⟩ := List.exists_cons_of_ne_nil hne
  rw [List.append_cons]
  exact append_digits (.firstDigit h (hrun c (by simp))) (.inl rfl) fun d hd ↦ hrun d (by simp [hd])

/-- A minus sign where an operand is due, and any operator after a value, makes an operand due. -/
theorem append_operator (h : Viable b p n) {op : Operator} (hop : p = .operand → op = .minus) :
    Viable (b ++ [op.glyph]) .operand n := by
  by_cases hp : p = .operand
  · subst hp
    rw [hop rfl]
    exact .negation h
  · exact .operator h hp (isOperatorGlyph_glyph op)

/-- Closing parentheses close what is open. -/
theorem append_closing {k : Nat} (h : Viable b p (n + k)) (hp : p ≠ .operand) :
    ∃ q, Viable (b ++ List.replicate k ')') q n ∧ q ≠ .operand := by
  induction k generalizing b p with
  | zero => exact ⟨p, by simpa using h, hp⟩
  | succ k ih =>
    rw [List.replicate_succ, List.append_cons]
    exact ih (.closing h hp) (by simp)

end Viable

end DeskCalculator.Buffer
