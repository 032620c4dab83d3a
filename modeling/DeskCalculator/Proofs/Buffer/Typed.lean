import DeskCalculator.Proofs.Buffer.Viable

/-!
# Typing leaves a beginning of an expression

Every key but the closing parenthesis and the percent sign, and every editing function, takes a
buffer that is the beginning of an expression to another one.
-/

namespace DeskCalculator.Buffer

open Expression (isLiteralChar)

/-! ### Plain numbers -/

private theorem unsigned_iff {d : List Char} :
    (!(d.takeWhile (· != '.')).isEmpty && (d.takeWhile (· != '.')).all Char.isDigit &&
        ((d.dropWhile (· != '.')).drop 1).all Char.isDigit) ↔
      ∃ whole tail, d = whole ++ tail ∧ whole ≠ [] ∧ (∀ c ∈ whole, c.isDigit) ∧
        (tail = [] ∨ ∃ fraction, tail = '.' :: fraction ∧ ∀ c ∈ fraction, c.isDigit) := by
  constructor
  · intro h
    simp only [Bool.and_eq_true, Bool.not_eq_true', List.isEmpty_eq_false_iff, List.all_eq_true] at h
    refine ⟨_, _, List.takeWhile_append_dropWhile.symm, h.1.1, h.1.2, ?_⟩
    cases htail : d.dropWhile (· != '.') with
    | nil => exact .inl rfl
    | cons c fraction =>
      have hc := List.head?_dropWhile_not (· != '.') d
      rw [htail] at hc h
      simp only [List.head?_cons, bne_eq_false_iff_eq] at hc
      subst hc
      exact .inr ⟨fraction, rfl, h.2⟩
  · rintro ⟨whole, tail, rfl, hne, hwhole, htail⟩
    have hpoint : ∀ c ∈ whole, (c != '.') = true := by
      intro c hc
      exact bne_iff_ne.mpr (ne_of_isDigit (hwhole c hc) rfl)
    rw [List.takeWhile_append_of_pos hpoint, List.dropWhile_append_of_pos hpoint]
    rcases htail with rfl | ⟨fraction, rfl, hfraction⟩
    · simpa [hne] using hwhole
    · simpa [hne] using And.intro hwhole hfraction

/-- A plain number is digits with at most one point after the first of them, and at most one minus
sign in front. -/
theorem isPlainNumber_iff {t : List Char} :
    isPlainNumber t ↔
      ∃ sign whole tail, t = sign ++ (whole ++ tail) ∧ (sign = [] ∨ sign = ['-']) ∧ whole ≠ [] ∧
        (∀ c ∈ whole, c.isDigit) ∧
        (tail = [] ∨ ∃ fraction, tail = '.' :: fraction ∧ ∀ c ∈ fraction, c.isDigit) := by
  constructor
  · intro h
    obtain ⟨whole, tail, ht, hrest⟩ := unsigned_iff.mp h
    split at ht
    · next hsign =>
      obtain ⟨d, rfl⟩ := List.head?_eq_some_iff.mp hsign
      exact ⟨['-'], whole, tail, congrArg ('-' :: ·) ht, .inr rfl, hrest⟩
    · exact ⟨[], whole, tail, ht, .inl rfl, hrest⟩
  · rintro ⟨sign, whole, tail, rfl, hsign, hrest⟩
    apply unsigned_iff.mpr
    refine ⟨whole, tail, ?_, hrest⟩
    rcases hsign with rfl | rfl
    · obtain ⟨c, whole, rfl⟩ := List.exists_cons_of_ne_nil hrest.1
      have hc : c ≠ '-' := ne_of_isDigit (hrest.2.1 c (by simp)) rfl
      simp [hc]
    · simp

/-- Without its minus sign a plain number is still one, and with one if it had none. -/
theorem isPlainNumber_of_toggleSign? {b b' : List Char} (h : toggleSign? b = some b') :
    isPlainNumber b' := by
  unfold toggleSign? at h
  split at h
  · cases h
  · next hplain =>
    simp only [Bool.or_eq_true, decide_eq_true_eq, Bool.not_eq_true', not_or,
      Bool.not_eq_false] at hplain
    obtain ⟨sign, whole, tail, rfl, hsign, hrest⟩ := isPlainNumber_iff.mp hplain.2
    obtain ⟨c, whole, rfl⟩ := List.exists_cons_of_ne_nil hrest.1
    have hc : c ≠ '-' := ne_of_isDigit (hrest.2.1 c (by simp)) rfl
    rcases hsign with rfl | rfl
    · rw [if_neg (by simpa using hc)] at h
      cases h
      exact isPlainNumber_iff.mpr ⟨['-'], _, tail, rfl, .inr rfl, hrest⟩
    · rw [if_pos (by rfl)] at h
      cases h
      exact isPlainNumber_iff.mpr ⟨[], _, tail, rfl, .inl rfl, hrest⟩

/-! ### Where an operand is due -/

/-- A text that can be typed where an operand is due. -/
def Begins (t : List Char) : Prop :=
  t ≠ [] ∧ ∀ b n, Viable b .operand n → ∃ p m, Viable (b ++ t) p m

namespace Viable

variable {b : List Char} {p : Place} {n : Nat}

/-- A plain number is a value. -/
theorem append_plainNumber (h : Viable b .operand n) {t : List Char} (ht : isPlainNumber t) :
    ∃ q, Viable (b ++ t) q n ∧ q ≠ .operand := by
  obtain ⟨sign, whole, tail, rfl, hsign, hne, hwhole, htail⟩ := isPlainNumber_iff.mp ht
  have hoperand : Viable (b ++ sign) .operand n := by
    rcases hsign with rfl | rfl
    · rwa [List.append_nil]
    · exact .negation h
  have hnumber := hoperand.append_number hne hwhole
  rw [← List.append_assoc, ← List.append_assoc]
  rcases htail with rfl | ⟨fraction, rfl, hfraction⟩
  · rw [List.append_nil]
    exact ⟨_, hnumber, by simp⟩
  · rw [List.append_cons]
    exact ⟨_, append_digits (.point hnumber) (.inr rfl) hfraction, by simp⟩

/-- A lone zero at the end makes room for what is typed. -/
theorem typed_over_zero (h : Viable b p n) (hzero : trailingNumber b = ['0']) {t : List Char}
    (ht : Begins t) : Typed (b.dropLast ++ t) :=
  ⟨by simp [ht.1], ht.2 _ _ (h.dropLast_of_zero hzero)⟩

/-- After a value a multiplication sign makes an operand due. -/
theorem typed_times (h : Viable b p n) (hp : p ≠ .operand) {t : List Char} (ht : Begins t) :
    Typed (b ++ '×' :: t) := by
  rw [List.append_cons]
  exact ⟨by simp, ht.2 _ _ (.operator h hp rfl)⟩

/-- So it does after a closing parenthesis. -/
theorem typed_times_of_closed (h : Viable b p n) (hclosed : endsIn b ')') {t : List Char}
    (ht : Begins t) : Typed (b ++ '×' :: t) := by
  have hp : p = .closed := h.endsIn_closing_iff.mp hclosed
  exact h.typed_times (by simp [hp]) ht

/-- Digits can be typed anywhere but after a closing parenthesis. -/
theorem typed_digits (h : Viable b p n) (hp : p ≠ .closed) {run : List Char} (hne : run ≠ [])
    (hrun : ∀ c ∈ run, c.isDigit) : Typed (b ++ run) := by
  refine ⟨by simp [hne], ?_⟩
  cases p with
  | operand => exact ⟨_, _, h.append_number hne hrun⟩
  | whole => exact ⟨_, _, h.append_digits (.inl rfl) hrun⟩
  | fraction => exact ⟨_, _, h.append_digits (.inr rfl) hrun⟩
  | closed => exact absurd rfl hp

/-- A buffer has a value at its end exactly if an operand is not due. -/
private theorem value_iff (h : Viable b p n) :
    trailingNumber b ≠ [] ∨ endsIn b '%' ∨ endsIn b ')' ↔ p ≠ .operand := by
  have hpercent : ¬ endsIn b '%' := by
    intro hends
    have hmem : '%' ∈ b := List.mem_of_getLast? (beq_iff_eq.mp hends)
    rcases h.typable_of_mem hmem with h | h | h | h <;> cases h
  rw [Ne, h.trailingNumber_eq_nil_iff, h.endsIn_closing_iff]
  cases p <;> simp [hpercent]

/-- The same for the last character by itself. -/
theorem endsInValue_iff (h : Viable b p n) :
    (b.getLast?.any fun c ↦ isLiteralChar c || c == ')' || c == '%') ↔ p ≠ .operand := by
  rw [Ne, ← h.wantsValue_iff]
  rcases List.eq_nil_or_concat b with rfl | ⟨a, c, rfl⟩
  · simp [wantsValue]
  · rw [List.concat_eq_append, List.getLast?_concat, Option.any_some, wantsValue_concat]
    rcases h.typable_of_mem (c := c) (by simp) with hc | hc | rfl | rfl
    · have hoperator : ¬ isOperatorGlyph c := by
        intro hoperator
        rw [isLiteralChar_of_isOperatorGlyph hoperator] at hc
        cases hc
      have hopening : c ≠ '(' := by
        rintro rfl
        cases hc
      simp [hc, hoperator, hopening]
    · rcases isOperatorGlyph_cases hc with rfl | rfl | rfl | rfl <;> decide
    · decide
    · decide

end Viable

private theorem begins_digits {run : List Char} (hne : run ≠ []) (hrun : ∀ c ∈ run, c.isDigit) :
    Begins run :=
  ⟨hne, fun _ _ h ↦ ⟨_, _, h.append_number hne hrun⟩⟩

private theorem begins_zero : Begins ['0'] :=
  begins_digits (by simp) (List.all_eq_true.mp rfl)

private theorem begins_opening : Begins ['('] :=
  ⟨by simp, fun _ _ h ↦ ⟨_, _, .opening h⟩⟩

private theorem begins_plainNumber {t : List Char} (ht : isPlainNumber t) : Begins t := by
  constructor
  · rintro rfl
    cases ht
  · intro b n h
    obtain ⟨q, hq, -⟩ := h.append_plainNumber ht
    exact ⟨q, n, hq⟩

private theorem begins_point : Begins ['0', '.'] :=
  begins_plainNumber rfl

private theorem Begins.typed {t : List Char} (ht : Begins t) : Typed t :=
  ⟨ht.1, ht.2 _ _ .nil⟩

/-! ### The keys -/

/-- A key that types no percent sign and no closing parenthesis: its digits are digits, and its
answer is a plain number. -/
def Key.Typing : Key → Prop
  | .digits run => run ≠ [] ∧ ∀ c ∈ run, c.isDigit
  | .dot | .operator _ | .opening => True
  | .percent | .closing => False
  | .answer text => isPlainNumber text

/-- The texts of keys other than `)` and `%`. -/
theorem Key.typing_of_parse? {text : List Char} {key : Key} (h : Key.parse? text = some key)
    (hclosing : text ≠ [')']) (hpercent : text ≠ ['%']) : key.Typing := by
  unfold Key.parse? at h
  split at h
  case h_14 hne =>
    split at h
    · next hrun =>
      cases h
      exact ⟨hne, List.all_eq_true.mp hrun⟩
    · cases h
  all_goals
    first
    | exact absurd rfl hclosing
    | exact absurd rfl hpercent
    | cases h <;> trivial

namespace Typed

variable {b : List Char}

theorem zero : Typed zero :=
  begins_zero.typed

theorem appendDigits (h : Typed b) {run : List Char} (hne : run ≠ [])
    (hrun : ∀ c ∈ run, c.isDigit) : Typed (appendDigits b run) := by
  obtain ⟨-, p, n, h⟩ := h
  unfold Buffer.appendDigits
  split
  · next hzero => exact h.typed_over_zero hzero (begins_digits hne hrun)
  · split
    · next hclosed => exact h.typed_times_of_closed hclosed (begins_digits hne hrun)
    · next hclosed =>
      rw [h.endsIn_closing_iff] at hclosed
      exact h.typed_digits hclosed hne hrun

theorem appendZeros (h : Typed b) {run : List Char} (hne : run ≠ [])
    (hrun : ∀ c ∈ run, c.isDigit) : Typed (appendZeros b run) := by
  have htyped := h
  obtain ⟨-, p, n, h⟩ := h
  unfold Buffer.appendZeros
  split
  · exact htyped
  · split
    · next hnil =>
      split
      · next hclosed => exact h.typed_times_of_closed hclosed begins_zero
      · next hclosed =>
        rw [h.endsIn_closing_iff] at hclosed
        exact h.typed_digits hclosed (by simp) (List.all_eq_true.mp rfl)
    · next hnumber =>
      rw [h.trailingNumber_eq_nil_iff] at hnumber
      exact h.typed_digits (fun hp ↦ hnumber (.inr hp)) hne hrun

theorem appendDot (h : Typed b) : Typed (appendDot b) := by
  have htyped := h
  obtain ⟨-, p, n, h⟩ := h
  unfold Buffer.appendDot
  split
  · next hclosed => exact h.typed_times_of_closed hclosed begins_point
  · split
    · exact htyped
    · split
      · next hwants =>
        have hp : p = .operand := h.wantsValue_iff.mp hwants
        subst hp
        exact ⟨by simp, begins_point.2 _ _ h⟩
      · next hclosed hpoint hwants =>
        rw [h.endsIn_closing_iff] at hclosed
        rw [List.contains_iff_mem, h.point_mem_trailingNumber_iff] at hpoint
        rw [h.wantsValue_iff] at hwants
        have hp : p = .whole := by cases p <;> simp_all
        subst hp
        exact ⟨by simp, _, _, .point h⟩

theorem appendOperator (h : Typed b) (op : Operator) : Typed (appendOperator b op) := by
  have htyped := h
  obtain ⟨hne, p, n, h⟩ := h
  unfold Buffer.appendOperator
  split
  · exact htyped
  · split
    · exact htyped
    · next hopening =>
      split
      · split
        · have hminus : Viable (b ++ [Operator.minus.glyph]) .operand n :=
            h.append_operator fun _ ↦ rfl
          exact ⟨by simp, _, _, hminus⟩
        · dsimp only
          split
          · exact htyped
          · next hbase =>
            simp only [Bool.or_eq_true, List.isEmpty_iff, not_or, Bool.not_eq_true] at hbase
            obtain ⟨q, m, hq, hvalue⟩ := h.exists_dropOperators hbase.1 hbase.2
            exact ⟨by simp, _, _, hq.append_operator fun hoperand ↦ absurd hoperand hvalue⟩
      · next hoperator =>
        refine ⟨by simp, _, _, h.append_operator fun hp ↦ ?_⟩
        -- Only a minus sign has passed an opening parenthesis.
        obtain ⟨a, c, rfl⟩ := List.eq_nil_or_concat b |>.resolve_left hne
        have hwants := h.wantsValue_iff.mpr hp
        rw [List.concat_eq_append] at *
        simp only [wantsValue_concat, endsIn_concat, List.getLast?_concat, Option.any_some,
          Bool.or_eq_true, Bool.and_eq_true, not_and] at hwants hopening hoperator
        have hc := hwants.resolve_left hoperator
        simpa using hopening hc

theorem appendAnswer (h : Typed b) {t : List Char} (ht : Begins t) : Typed (appendAnswer b t) := by
  obtain ⟨-, p, n, h⟩ := h
  unfold Buffer.appendAnswer
  have hvalue := h.value_iff
  rw [← or_assoc] at hvalue
  split
  · next hzero => exact h.typed_over_zero hzero ht
  · split
    · next hends =>
      simp only [Bool.or_eq_true, decide_eq_true_eq] at hends
      exact h.typed_times (hvalue.mp hends) ht
    · next hends =>
      simp only [Bool.or_eq_true, decide_eq_true_eq] at hends
      have hp : p = .operand := by rwa [hvalue, Ne, Decidable.not_not] at hends
      subst hp
      exact ⟨by simp [ht.1], ht.2 _ _ h⟩

theorem appendOpening (h : Typed b) : Typed (appendOpening b) :=
  h.appendAnswer begins_opening

theorem append (h : Typed b) {key : Key} (hkey : key.Typing) : Typed (append b key) := by
  cases key with
  | digits run =>
    rw [Buffer.append]
    split
    · exact h.appendZeros hkey.1 hkey.2
    · exact h.appendDigits hkey.1 hkey.2
  | dot => exact h.appendDot
  | operator op => exact h.appendOperator op
  | percent => cases hkey
  | opening => exact h.appendOpening
  | closing => cases hkey
  | answer text => exact h.appendAnswer (begins_plainNumber hkey)

theorem fresh {key : Key} (hkey : key.Typing) : Typed key.fresh := by
  cases key with
  | digits run =>
    rw [Key.fresh]
    split
    · exact zero
    · exact (begins_digits hkey.1 hkey.2).typed
  | dot => exact begins_point.typed
  | operator op => exact zero
  | percent => exact zero
  | opening => exact begins_opening.typed
  | closing => exact zero
  | answer text => exact (begins_plainNumber hkey).typed

/-! ### The editing functions -/

theorem backspace (h : Typed b) : Typed (backspace b) := by
  obtain ⟨-, p, n, h⟩ := h
  unfold Buffer.backspace
  dsimp only
  split
  · exact zero
  · next hnext =>
    simp only [Bool.or_eq_true, decide_eq_true_eq, not_or] at hnext
    exact ⟨hnext.1, h.dropLast⟩

theorem toggleSign (h : Typed b) : Typed ((toggleSign? b).getD b) := by
  cases ht : toggleSign? b with
  | none => exact h
  | some b' => exact (begins_plainNumber (isPlainNumber_of_toggleSign? ht)).typed

theorem parenthesis (h : Typed b) : Typed (parenthesis b) := by
  obtain ⟨-, p, n, h⟩ := h
  unfold Buffer.parenthesis
  split
  · exact begins_opening.typed
  · split
    · next hclose =>
      simp only [Bool.and_eq_true, decide_eq_true_eq, Bool.not_eq_true', ← Bool.not_eq_true,
        h.wantsValue_iff] at hclose
      obtain ⟨m, rfl⟩ : ∃ m, n = m + 1 := ⟨n - 1, by have := h.count_opening; omega⟩
      exact ⟨by simp, _, _, .closing h hclose.2⟩
    · split
      · next hvalue => exact h.typed_times (h.endsInValue_iff.mp hvalue) begins_opening
      · next hvalue =>
        rw [h.endsInValue_iff, Ne, Decidable.not_not] at hvalue
        subst hvalue
        exact ⟨by simp, _, _, .opening h⟩

end Typed

end DeskCalculator.Buffer
