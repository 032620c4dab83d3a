import DeskCalculator.Proofs.Expression.Literals
import DeskCalculator.Proofs.Number.Display
import Mathlib.Data.List.Chain

/-!
# Which character can follow which

With every key, the percent sign and the closing parenthesis included, a buffer need not be the
beginning of an expression. It still keeps a shape: `follows` says which character can stand right
after which, and no number has two points. All keys and editing functions keep that shape.
-/

namespace DeskCalculator.Buffer

open Expression (isLiteralChar PointsApart)

/-! ### What the end of a buffer says -/

/-- The last character of a buffer. The beginning of a buffer is like the place after an opening
parenthesis. -/
def lastChar (b : List Char) : Char :=
  b.getLast?.getD '('

@[simp] theorem lastChar_concat (b : List Char) (c : Char) : lastChar (b ++ [c]) = c := by
  simp [lastChar]

section LastChar

variable {b : List Char} {c : Char}

theorem wantsValue_iff : wantsValue b ↔ isOperatorGlyph (lastChar b) ∨ lastChar b = '(' := by
  rcases List.eq_nil_or_concat b with rfl | ⟨a, d, rfl⟩
  · decide
  · rw [List.concat_eq_append, wantsValue_concat, lastChar_concat, Bool.or_eq_true, beq_iff_eq]

private theorem any_getLast?_iff {p : Char → Bool} (hp : p '(' = false) :
    b.getLast?.any p ↔ p (lastChar b) := by
  rcases List.eq_nil_or_concat b with rfl | ⟨a, d, rfl⟩
  · simp [lastChar, hp]
  · rw [List.concat_eq_append, List.getLast?_concat, lastChar_concat, Option.any_some]

theorem endsIn_iff (hc : c ≠ '(') : endsIn b c ↔ lastChar b = c := by
  rcases List.eq_nil_or_concat b with rfl | ⟨a, d, rfl⟩
  · simp [endsIn, lastChar, hc.symm]
  · rw [List.concat_eq_append, endsIn_concat, lastChar_concat, beq_iff_eq]

private theorem endsIn_opening_iff (hb : b ≠ []) : endsIn b '(' ↔ lastChar b = '(' := by
  rcases List.eq_nil_or_concat b with rfl | ⟨a, d, rfl⟩
  · exact absurd rfl hb
  · rw [List.concat_eq_append, endsIn_concat, lastChar_concat, beq_iff_eq]

theorem trailingNumber_eq_nil_iff : trailingNumber b = [] ↔ isLiteralChar (lastChar b) = false := by
  rcases List.eq_nil_or_concat b with rfl | ⟨a, d, rfl⟩
  · decide
  · rw [List.concat_eq_append, trailingNumber_concat, lastChar_concat]
    cases isLiteralChar d <;> simp

/-- A lone zero at the end stands after no number. -/
theorem exists_of_zero (h : trailingNumber b = ['0']) :
    ∃ a, b = a ++ ['0'] ∧ isLiteralChar (lastChar a) = false := by
  rcases List.eq_nil_or_concat b with rfl | ⟨a, d, rfl⟩
  · cases h
  · rw [List.concat_eq_append, trailingNumber_concat] at *
    split at h
    · have heq : trailingNumber a ++ [d] = [] ++ ['0'] := h
      have hnil := (List.append_inj' heq rfl).1
      have hzero := (List.append_inj' heq rfl).2
      cases hzero
      exact ⟨a, rfl, trailingNumber_eq_nil_iff.mp hnil⟩
    · cases h

/-- A stretch of digits and points at the end of a buffer belongs to the number there. -/
private theorem suffix_trailingNumber {b run : List Char} (h : run <:+ b)
    (hrun : ∀ c ∈ run, isLiteralChar c) : run <:+ trailingNumber b := by
  obtain ⟨a, rfl⟩ := h
  have hreverse : ∀ c ∈ run.reverse, isLiteralChar c := fun c hc ↦ hrun c (List.mem_reverse.mp hc)
  rw [trailingNumber, List.reverse_append, List.takeWhile_append_of_pos hreverse,
    List.reverse_append, List.reverse_reverse]
  exact List.suffix_append _ _

/-- Digits and points after no number are the number there. -/
theorem trailingNumber_append_run {b run : List Char} (hb : isLiteralChar (lastChar b) = false)
    (hrun : ∀ c ∈ run, isLiteralChar c) : trailingNumber (b ++ run) = run := by
  have hreverse : ∀ c ∈ run.reverse, isLiteralChar c := fun c hc ↦ hrun c (List.mem_reverse.mp hc)
  rw [trailingNumber, List.reverse_append, List.takeWhile_append_of_pos hreverse,
    List.reverse_append, List.reverse_reverse]
  change trailingNumber b ++ run = run
  rw [trailingNumber_eq_nil_iff.mpr hb, List.nil_append]

private theorem point_mem_trailingNumber (h : lastChar b = '.') : '.' ∈ trailingNumber b := by
  rcases List.eq_nil_or_concat b with rfl | ⟨a, d, rfl⟩
  · cases h
  · rw [List.concat_eq_append, lastChar_concat] at *
    subst h
    rw [trailingNumber_concat]
    exact List.mem_append_right _ (List.mem_singleton.mpr rfl)

/-! #### Without the operators at the end -/

private theorem prefix_dropOperators (b : List Char) : dropOperators b <+: b := by
  rw [dropOperators, ← List.reverse_suffix, List.reverse_reverse]
  exact List.dropWhile_suffix _

private theorem isOperatorGlyph_lastChar_dropOperators (b : List Char) :
    isOperatorGlyph (lastChar (dropOperators b)) = false := by
  induction b using List.reverseRecOn with
  | nil => rfl
  | append_singleton b c ih =>
    rw [dropOperators_concat]
    split
    · exact ih
    · next hc => rwa [lastChar_concat, ← Bool.not_eq_true]

end LastChar

/-! ### Shapes -/

/-- A buffer without two points in a number, in which every character stands in a relation to the
one before it. -/
structure Formed (R : Char → Char → Prop) (b : List Char) : Prop where
  chain : ('(' :: b).IsChain R
  points : PointsApart b

namespace Formed

variable {R : Char → Char → Prop} {a b : List Char} {c : Char}

theorem nil : Formed R [] where
  chain := List.isChain_singleton _
  points run hpart _ := by
    rw [List.infix_nil.mp hpart]
    decide

theorem of_isPrefix (h : Formed R b) (hab : a <+: b) : Formed R a where
  chain := h.chain.prefix (List.cons_prefix_cons.mpr ⟨rfl, hab⟩)
  points run hpart hrun := h.points run (hpart.trans hab.isInfix) hrun

theorem of_append (h : Formed R (a ++ b)) : Formed R a :=
  h.of_isPrefix (List.prefix_append a b)

/-- A character that can stand after the last one. -/
theorem concat (h : Formed R b) (hc : R (lastChar b) c)
    (hpoint : c = '.' → '.' ∉ trailingNumber b) : Formed R (b ++ [c]) where
  chain := by
    have hlast : ('(' :: b).getLast? = some (lastChar b) := by rw [List.getLast?_cons, lastChar]
    rw [← List.cons_append, List.isChain_append, hlast]
    refine ⟨h.chain, List.isChain_singleton c, fun d hd e he ↦ ?_⟩
    cases hd
    cases he
    exact hc
  points run hpart hrun := by
    rcases List.infix_concat_iff.mp hpart with hsuffix | hpart
    · rcases List.suffix_concat_iff.mp hsuffix with rfl | ⟨t, rfl, ht⟩
      · decide
      · have hliteral : ∀ c ∈ t, isLiteralChar c := fun d hd ↦ hrun d (by simp [hd])
        rw [List.count_append]
        by_cases hc : c = '.'
        · have hnone : t.count '.' = 0 := by
            apply List.count_eq_zero.mpr
            intro hmem
            exact hpoint hc ((suffix_trailingNumber ht hliteral).subset hmem)
          rw [hnone, Nat.zero_add]
          exact List.count_le_length
        · have hone := h.points t ht.isInfix hliteral
          simpa [hc] using hone
    · exact h.points run hpart hrun

/-- The last character can stand after the one before it. -/
theorem rel_lastChar (h : Formed R (b ++ [c])) : R (lastChar b) c := by
  have hchain := h.chain
  rw [← List.cons_append, List.isChain_append] at hchain
  exact hchain.2.2 _ (by rw [List.getLast?_cons, lastChar]; rfl) _ rfl

/-- Every character of a buffer stands in the relation to one before it. -/
theorem exists_rel (h : Formed R b) {d : Char} (hd : d ∈ b) : ∃ c, R c d := by
  obtain ⟨before, after, rfl⟩ := List.append_of_mem hd
  have hbegins : before ++ [d] <+: before ++ d :: after := by simp
  exact ⟨_, (h.of_isPrefix hbegins).rel_lastChar⟩

end Formed

/-! ### The shape that keys keep -/

/-- What a buffer may hold beside what the keys put there by themselves. -/
structure Lapses where
  /-- A point right after an operator, where a repair has dropped the percent sign between them. -/
  points : Bool
  /-- An opening parenthesis right after a percent sign, where it has taken the place of a zero. -/
  openings : Bool

/-- Whether `d` can stand right after `c`. -/
def follows (k : Lapses) (c d : Char) : Bool :=
  if d.isDigit then c != ')'
  else if d == '.' then c.isDigit || c == '%' || k.points && isOperatorGlyph c
  else if isOperatorGlyph d then d == '-' || !(isOperatorGlyph c || c == '(')
  else if d == '(' then !(isLiteralChar c || c == ')') && (c != '%' || k.openings)
  else (d == '%' || d == ')') && c != '('

variable {k : Lapses}

theorem follows_digit {c d : Char} (hd : d.isDigit) : follows k c d ↔ c ≠ ')' := by
  rw [follows, if_pos hd, bne_iff_ne]

theorem follows_point {c : Char} :
    follows k c '.' = (c.isDigit || c == '%' || k.points && isOperatorGlyph c) :=
  rfl

theorem follows_operator {c : Char} {op : Operator} :
    follows k c op.glyph ↔ op = .minus ∨ ¬ (isOperatorGlyph c ∨ c = '(') := by
  cases op <;> simp [follows, Operator.glyph, isOperatorGlyph]

theorem follows_afterValue {c d : Char} (hd : d = '%' ∨ d = ')') (hc : c ≠ '(') :
    follows k c d := by
  rcases hd with rfl | rfl <;> simpa [follows, isOperatorGlyph] using hc

/-- Nothing but the characters that keys type can follow. -/
theorem follows_cases {c d : Char} (h : follows k c d) :
    d.isDigit ∨ d = '.' ∨ isOperatorGlyph d ∨ d = '(' ∨ d = '%' ∨ d = ')' := by
  unfold follows at h
  by_cases hdigit : d.isDigit
  · exact .inl hdigit
  · by_cases hpoint : d = '.'
    · exact .inr (.inl hpoint)
    · by_cases hoperator : isOperatorGlyph d
      · exact .inr (.inr (.inl hoperator))
      · by_cases hopening : d = '('
        · exact .inr (.inr (.inr (.inl hopening)))
        · simp [hdigit, hpoint, hoperator, hopening] at h
          exact .inr (.inr (.inr (.inr h.1)))

theorem follows_opening {c : Char} :
    follows k c '(' = (!(isLiteralChar c || c == ')') && (c != '%' || k.openings)) :=
  rfl

/-- A buffer of the shape that keys keep. -/
abbrev Fits (k : Lapses) (b : List Char) : Prop :=
  Formed (fun c d ↦ follows k c d) b

/-- At the end of a buffer stands no number and no closing parenthesis. -/
def Vacant (b : List Char) : Prop :=
  isLiteralChar (lastChar b) = false ∧ lastChar b ≠ ')'

/-- A text that can be typed where no number and no closing parenthesis stands. Only an opening
parenthesis minds a percent sign there. -/
def Fitting (k : Lapses) (t : List Char) : Prop :=
  t ≠ [] ∧ ∀ b, Fits k b → Vacant b → (lastChar b = '%' → t = ['('] → k.openings) → Fits k (b ++ t)

namespace Fits

variable {b : List Char}

/-- Digits can be typed anywhere but after a closing parenthesis. -/
theorem append_digits (h : Fits k b) (hb : lastChar b ≠ ')') {run : List Char}
    (hrun : ∀ c ∈ run, c.isDigit) : Fits k (b ++ run) := by
  induction run generalizing b with
  | nil => rwa [List.append_nil]
  | cons c run ih =>
    have hc : c.isDigit := hrun c (by simp)
    have hpoint : c ≠ '.' := ne_of_isDigit hc rfl
    have hclosing : c ≠ ')' := ne_of_isDigit hc rfl
    rw [List.append_cons]
    apply ih
    · exact h.concat ((follows_digit hc).mpr hb) fun heq ↦ absurd heq hpoint
    · rwa [lastChar_concat]
    · exact fun d hd ↦ hrun d (by simp [hd])

/-- A minus sign can be typed anywhere. -/
theorem append_minus (h : Fits k b) : Fits k (b ++ ['-']) :=
  h.concat rfl fun heq ↦ by cases heq

/-- A multiplication sign can be typed after a value. -/
private theorem append_times (h : Fits k b) (hb : ¬ wantsValue b) : Fits k (b ++ ['×']) := by
  rw [wantsValue_iff] at hb
  exact h.concat ((@follows_operator k _ .times).mpr (.inr hb)) fun heq ↦ by cases heq

/-- A plain number can be typed where no value stands. -/
theorem append_plainNumber (h : Fits k b) (hb : Vacant b) {t : List Char} (ht : isPlainNumber t) :
    Fits k (b ++ t) := by
  obtain ⟨sign, whole, tail, rfl, hsign, hne, hwhole, htail⟩ := isPlainNumber_iff.mp ht
  have hsigned : Fits k (b ++ sign) ∧ Vacant (b ++ sign) := by
    rcases hsign with rfl | rfl
    · rw [List.append_nil]
      exact ⟨h, hb⟩
    · exact ⟨h.append_minus, by rw [Vacant, lastChar_concat]; decide⟩
  have hnumber := append_digits hsigned.1 hsigned.2.2 hwhole
  rw [← List.append_assoc, ← List.append_assoc]
  rcases htail with rfl | ⟨fraction, rfl, hfraction⟩
  · rwa [List.append_nil]
  · -- Before the point stand the digits alone, since no number stands before them.
    have hdigits : ∀ c ∈ whole, isLiteralChar c := fun c hc ↦ isLiteralChar_of_isDigit (hwhole c hc)
    have hnone : '.' ∉ trailingNumber (b ++ sign ++ whole) := by
      rw [trailingNumber_append_run hsigned.2.1 hdigits]
      intro hmem
      exact absurd (hwhole _ hmem) (by decide)
    obtain ⟨whole, c, rfl⟩ := (List.eq_nil_or_concat whole).resolve_left hne
    rw [List.concat_eq_append] at *
    have hc : c.isDigit := hwhole c (by simp)
    have hpoint : Fits k (b ++ sign ++ (whole ++ [c]) ++ ['.']) := by
      apply hnumber.concat
      · rw [← List.append_assoc, lastChar_concat, follows_point, hc]
        simp
      · exact fun _ ↦ hnone
    rw [List.append_cons]
    exact append_digits hpoint (by rw [lastChar_concat]; decide) hfraction

end Fits

private theorem fitting_digits {run : List Char} (hne : run ≠ []) (hrun : ∀ c ∈ run, c.isDigit) :
    Fitting k run :=
  ⟨hne, fun _ h hb _ ↦ h.append_digits hb.2 hrun⟩

theorem fitting_plainNumber {t : List Char} (ht : isPlainNumber t) : Fitting k t := by
  constructor
  · rintro rfl
    cases ht
  · exact fun b h hb _ ↦ h.append_plainNumber hb ht

private theorem fitting_opening : Fitting k ['('] := by
  refine ⟨by simp, fun b h hb hpercent ↦ h.concat ?_ fun heq ↦ by cases heq⟩
  rw [follows_opening, hb.1]
  simpa [hb.2, imp_iff_not_or] using hpercent

/-- Whether an opening parenthesis can take the place of a lone zero at the end of a buffer. -/
def Lapses.Open (k : Lapses) (b : List Char) : Prop :=
  ['%', '0'] <:+ b → k.openings

/-! ### The keys -/

/-- A key as it can be pressed: its digits are digits, and its answer is a plain number. -/
def Key.Valid : Key → Prop
  | .digits run => run ≠ [] ∧ ∀ c ∈ run, c.isDigit
  | .answer text => isPlainNumber text
  | _ => True

/-- A key that has a text, or that types the text of a finite result. -/
def Key.OnKeypad (key : Key) : Prop :=
  (∃ text, Key.parse? text = some key) ∨
    ∃ x : Float, x.isFinite ∧ key = .answer (Number.displayText x)

theorem Key.valid_of_parse? {text : List Char} {key : Key} (h : Key.parse? text = some key) :
    key.Valid := by
  by_cases hclosing : text = [')']
  · rw [hclosing] at h
    cases h
    trivial
  · by_cases hpercent : text = ['%']
    · rw [hpercent] at h
      cases h
      trivial
    · have htyping := Key.typing_of_parse? h hclosing hpercent
      cases key <;> first | exact htyping | trivial

theorem Key.OnKeypad.valid {key : Key} (h : key.OnKeypad) : key.Valid := by
  rcases h with ⟨text, htext⟩ | ⟨x, hx, rfl⟩
  · exact Key.valid_of_parse? htext
  · exact Number.isPlainNumber_displayText hx

/-- A buffer that is not empty, of the shape that keys keep. -/
def Shaped (k : Lapses) (b : List Char) : Prop :=
  b ≠ [] ∧ Fits k b

namespace Fitting

variable {b t : List Char}

/-- A text that can be typed into an empty buffer. -/
theorem shaped (ht : Fitting k t) : Shaped k t :=
  ⟨ht.1, ht.2 [] .nil ⟨rfl, by decide⟩ fun hpercent ↦ by cases hpercent⟩

/-- It can be typed after a multiplication sign that is put in. -/
theorem shaped_times (ht : Fitting k t) (h : Fits k b) (hb : ¬ wantsValue b) :
    Shaped k (b ++ '×' :: t) := by
  rw [List.append_cons]
  refine ⟨by simp, ht.2 _ (h.append_times hb) ?_ fun hpercent ↦ ?_⟩
  · rw [Vacant, lastChar_concat]
    decide
  · rw [lastChar_concat] at hpercent
    cases hpercent

/-- It can take the place of a lone zero. -/
theorem shaped_over_zero (ht : Fitting k t) (h : Fits k b) (hzero : trailingNumber b = ['0'])
    (hopen : t = ['('] → k.Open b) : Shaped k (b.dropLast ++ t) := by
  obtain ⟨a, rfl, hliteral⟩ := exists_of_zero hzero
  have hclosing : lastChar a ≠ ')' := (follows_digit rfl).mp h.rel_lastChar
  rw [List.dropLast_concat]
  refine ⟨by simp [ht.1], ht.2 a h.of_append ⟨hliteral, hclosing⟩ fun hpercent heq ↦ ?_⟩
  apply hopen heq
  rcases List.eq_nil_or_concat a with rfl | ⟨a, c, rfl⟩
  · cases hpercent
  · rw [List.concat_eq_append, lastChar_concat] at hpercent
    subst hpercent
    exact ⟨a, by simp⟩

end Fitting

namespace Shaped

variable {b : List Char}

theorem zero : Shaped k zero :=
  (fitting_plainNumber rfl).shaped

/-- Digits can be typed anywhere but after a closing parenthesis. -/
theorem typed_digits (h : Shaped k b) (hb : ¬ endsIn b ')') {run : List Char}
    (hrun : ∀ c ∈ run, c.isDigit) : Shaped k (b ++ run) := by
  rw [endsIn_iff (by decide)] at hb
  exact ⟨by simp [h.1], h.2.append_digits hb hrun⟩

/-- After a closing parenthesis, a percent sign and a number no value is wanted. -/
theorem not_wantsValue {c : Char} (hc : isOperatorGlyph c = false) (hopening : c ≠ '(')
    (hends : endsIn b c) : ¬ wantsValue b := by
  rw [endsIn_iff hopening] at hends
  rw [wantsValue_iff, hends]
  simp [hc, hopening]

private theorem not_wantsValue_of_literal (hb : isLiteralChar (lastChar b)) : ¬ wantsValue b := by
  rw [wantsValue_iff]
  rintro (hoperator | hopening)
  · rw [isLiteralChar_of_isOperatorGlyph hoperator] at hb
    cases hb
  · rw [hopening] at hb
    cases hb

/-- A buffer ends with a character that keys type. -/
private theorem lastChar_cases (h : Shaped k b) :
    (lastChar b).isDigit ∨ lastChar b = '.' ∨ isOperatorGlyph (lastChar b) ∨ lastChar b = '(' ∨
      lastChar b = '%' ∨ lastChar b = ')' := by
  obtain ⟨a, c, rfl⟩ := (List.eq_nil_or_concat b).resolve_left h.1
  rw [List.concat_eq_append] at *
  rw [lastChar_concat]
  exact follows_cases h.2.rel_lastChar

theorem appendDigits (h : Shaped k b) {run : List Char} (hne : run ≠ [])
    (hrun : ∀ c ∈ run, c.isDigit) : Shaped k (appendDigits b run) := by
  have ht : Fitting k run := fitting_digits hne hrun
  unfold Buffer.appendDigits
  split
  · next hzero =>
    refine ht.shaped_over_zero h.2 hzero fun heq ↦ ?_
    subst heq
    exact absurd (hrun '(' (by simp)) (by decide)
  · split
    · next hclosing => exact ht.shaped_times h.2 (not_wantsValue rfl (by decide) hclosing)
    · next hclosing => exact h.typed_digits hclosing hrun

theorem appendZeros (h : Shaped k b) {run : List Char} (hrun : ∀ c ∈ run, c.isDigit) :
    Shaped k (appendZeros b run) := by
  have hzero : ∀ c ∈ ['0'], c.isDigit := List.all_eq_true.mp rfl
  unfold Buffer.appendZeros
  split
  · exact h
  · split
    · split
      · next hclosing =>
        exact (fitting_digits (by simp) hzero).shaped_times h.2
          (not_wantsValue rfl (by decide) hclosing)
      · next hclosing => exact h.typed_digits hclosing hzero
    · next hnumber =>
      rw [trailingNumber_eq_nil_iff, Bool.not_eq_false] at hnumber
      refine h.typed_digits (fun hclosing ↦ ?_) hrun
      rw [endsIn_iff (by decide)] at hclosing
      rw [hclosing] at hnumber
      cases hnumber

theorem appendDot (h : Shaped k b) : Shaped k (appendDot b) := by
  have ht : Fitting k ['0', '.'] := fitting_plainNumber rfl
  unfold Buffer.appendDot
  split
  · next hclosing => exact ht.shaped_times h.2 (not_wantsValue rfl (by decide) hclosing)
  · next hclosing =>
    rw [endsIn_iff (by decide)] at hclosing
    split
    · exact h
    · next hpoint =>
      rw [List.contains_iff_mem] at hpoint
      split
      · next hwants =>
        rw [wantsValue_iff] at hwants
        refine ⟨by simp, ht.2 b h.2 ⟨?_, hclosing⟩ fun _ heq ↦ by cases heq⟩
        rcases hwants with hoperator | hopening
        · exact isLiteralChar_of_isOperatorGlyph hoperator
        · rw [hopening]
          rfl
      · next hwants =>
        have hlast := h.lastChar_cases
        rw [wantsValue_iff, not_or] at hwants
        refine ⟨by simp, h.2.concat ?_ fun _ ↦ hpoint⟩
        rw [follows_point]
        rcases hlast with hdigit | hlast | hoperator | hopening | hpercent | hclosed
        · rw [hdigit, Bool.true_or, Bool.true_or]
        · exact absurd (point_mem_trailingNumber hlast) hpoint
        · exact absurd hoperator hwants.1
        · exact absurd hopening hwants.2
        · rw [hpercent]
          rfl
        · exact absurd hclosed hclosing

theorem appendOperator (h : Shaped k b) (op : Operator) : Shaped k (appendOperator b op) := by
  have append {a : List Char} (ha : Fits k a)
      (hop : op = .minus ∨ ¬ (isOperatorGlyph (lastChar a) ∨ lastChar a = '(')) :
      Shaped k (a ++ [op.glyph]) := by
    refine ⟨by simp, ha.concat (follows_operator.mpr hop) fun heq ↦ ?_⟩
    cases op <;> cases heq
  unfold Buffer.appendOperator
  split
  · exact h
  · split
    · exact h
    · next hopening =>
      rw [Bool.and_eq_true, endsIn_opening_iff h.1, bne_iff_ne, not_and, not_not] at hopening
      split
      · split
        · exact ⟨by simp, h.2.append_minus⟩
        · dsimp only
          split
          · exact h
          · next hbase =>
            rw [Bool.or_eq_true, List.isEmpty_iff, not_or] at hbase
            rw [endsIn_opening_iff hbase.1] at hbase
            apply append (h.2.of_isPrefix (prefix_dropOperators b))
            refine .inr (not_or.mpr ⟨?_, hbase.2⟩)
            rw [isOperatorGlyph_lastChar_dropOperators]
            decide
      · next hoperator =>
        rw [any_getLast?_iff rfl] at hoperator
        apply append h.2
        by_cases hop : op = .minus
        · exact .inl hop
        · exact .inr (not_or.mpr ⟨hoperator, fun hlast ↦ hop (hopening hlast)⟩)

theorem appendAfterValue (h : Shaped k b) {c : Char} (hc : c = '%' ∨ c = ')') :
    Shaped k (appendAfterValue b c) := by
  unfold Buffer.appendAfterValue
  split
  · exact h
  · next hvalue =>
    rw [Bool.or_eq_true, not_or, endsIn_opening_iff h.1] at hvalue
    refine ⟨by simp, h.2.concat (follows_afterValue hc hvalue.2) fun heq ↦ ?_⟩
    rw [heq] at hc
    rcases hc with hc | hc <;> cases hc

theorem appendAnswer (h : Shaped k b) {t : List Char} (ht : Fitting k t)
    (hopen : t = ['('] → k.Open b) : Shaped k (appendAnswer b t) := by
  unfold Buffer.appendAnswer
  split
  · next hzero => exact ht.shaped_over_zero h.2 hzero hopen
  · split
    · next hvalue =>
      rw [Bool.or_eq_true, Bool.or_eq_true, decide_eq_true_eq, ne_eq, trailingNumber_eq_nil_iff,
        Bool.not_eq_false] at hvalue
      apply ht.shaped_times h.2
      rcases hvalue with (hliteral | hpercent) | hclosing
      · exact not_wantsValue_of_literal hliteral
      · exact not_wantsValue rfl (by decide) hpercent
      · exact not_wantsValue rfl (by decide) hclosing
    · next hvalue =>
      rw [Bool.or_eq_true, Bool.or_eq_true, decide_eq_true_eq, ne_eq, not_or, not_or, not_not,
        trailingNumber_eq_nil_iff, endsIn_iff (by decide), endsIn_iff (by decide)] at hvalue
      exact ⟨by simp [ht.1], ht.2 b h.2 ⟨hvalue.1.1, hvalue.2⟩ fun heq ↦ absurd heq hvalue.1.2⟩

/-- Every key keeps the shape, unless an opening parenthesis takes the place of a lone zero after a
percent sign. -/
theorem append (h : Shaped k b) {key : Key} (hkey : key.Valid) (hopen : key = .opening → k.Open b) :
    Shaped k (append b key) := by
  cases key with
  | digits run =>
    rw [Buffer.append]
    split
    · exact h.appendZeros hkey.2
    · exact h.appendDigits hkey.1 hkey.2
  | dot => exact h.appendDot
  | operator op => exact h.appendOperator op
  | percent => exact h.appendAfterValue (.inl rfl)
  | opening => exact h.appendAnswer fitting_opening fun _ ↦ hopen rfl
  | closing => exact h.appendAfterValue (.inr rfl)
  | answer text =>
    refine h.appendAnswer (fitting_plainNumber hkey) fun heq ↦ ?_
    rw [heq] at hkey
    cases hkey

theorem fresh {key : Key} (hkey : key.Valid) : Shaped k key.fresh := by
  cases key with
  | digits run =>
    rw [Key.fresh]
    split
    · exact zero
    · exact (fitting_digits hkey.1 hkey.2).shaped
  | dot => exact (fitting_plainNumber rfl).shaped
  | operator op => exact zero
  | percent => exact zero
  | opening => exact fitting_opening.shaped
  | closing => exact zero
  | answer text => exact (fitting_plainNumber hkey).shaped

/-! ### The editing functions -/

theorem backspace (h : Shaped k b) : Shaped k (backspace b) := by
  unfold Buffer.backspace
  dsimp only
  split
  · exact zero
  · next hnext =>
    rw [Bool.or_eq_true, decide_eq_true_eq, decide_eq_true_eq, not_or] at hnext
    exact ⟨hnext.1, h.2.of_isPrefix (List.dropLast_prefix b)⟩

theorem toggleSign {b' : List Char} (h : toggleSign? b = some b') : Shaped k b' :=
  (fitting_plainNumber (isPlainNumber_of_toggleSign? h)).shaped

theorem parenthesis (h : Shaped k b) : Shaped k (parenthesis b) := by
  unfold Buffer.parenthesis
  split
  · exact fitting_opening.shaped
  · split
    · next hclose =>
      rw [Bool.and_eq_true, Bool.not_eq_true', ← Bool.not_eq_true, wantsValue_iff, not_or] at hclose
      refine ⟨by simp, h.2.concat (follows_afterValue (.inr rfl) hclose.2.2) fun heq ↦ ?_⟩
      cases heq
    · split
      · next hvalue =>
        rw [any_getLast?_iff rfl] at hvalue
        apply fitting_opening.shaped_times h.2
        rw [wantsValue_iff]
        rintro (hoperator | hopening)
        · rcases isOperatorGlyph_cases hoperator with hc | hc | hc | hc <;>
            (rw [hc] at hvalue; cases hvalue)
        · rw [hopening] at hvalue
          cases hvalue
      · next hvalue =>
        rw [any_getLast?_iff rfl, Bool.or_eq_true, Bool.or_eq_true, beq_iff_eq, beq_iff_eq, not_or,
          not_or, Bool.not_eq_true] at hvalue
        exact ⟨by simp, fitting_opening.2 b h.2 hvalue.1 fun heq ↦ absurd heq hvalue.2⟩

end Shaped

end DeskCalculator.Buffer
