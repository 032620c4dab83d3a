import DeskCalculator.Expression.Compute
import DeskCalculator.Proofs.Buffer.Succession
import Mathlib.Data.List.DropRight

/-!
# Two spellings of an operator

A text that is entered can write `*` for `×` and `/` for `÷`, as the evaluator does. The keys know
only the glyphs. So the spelling matters where a key looks at the operators at the end of the
buffer: for the decimal point, for an operator, and for the parenthesis key inside an open
parenthesis. Everywhere else editing is the same in both spellings.
-/

namespace DeskCalculator.Buffer

open Expression (isLiteralChar isOperatorChar)

/-! ### Characters -/

/-- Whether a character is a multiplication or division sign as the evaluator writes it. -/
def isPlainSign (c : Char) : Bool :=
  c == '*' || c == '/'

/-- Whether a character is a multiplication or division sign in either spelling. -/
def isProductSign (c : Char) : Bool :=
  c == '×' || c == '÷' || isPlainSign c

/-- The character that the display writes for a character. -/
def glyphOf (c : Char) : Char :=
  if c = '*' then '×' else if c = '/' then '÷' else c

private theorem glyphOf_cases (c : Char) :
    (c = '*' ∧ glyphOf c = '×') ∨ (c = '/' ∧ glyphOf c = '÷') ∨
      (isPlainSign c = false ∧ glyphOf c = c) := by
  by_cases htimes : c = '*'
  · exact .inl ⟨htimes, by rw [htimes]; rfl⟩
  · by_cases hdivide : c = '/'
    · exact .inr (.inl ⟨hdivide, by rw [hdivide]; rfl⟩)
    · exact .inr (.inr ⟨by simp [isPlainSign, htimes, hdivide], by simp [glyphOf, htimes, hdivide]⟩)

private theorem isOperatorChar_eq (c : Char) :
    isOperatorChar c = (isOperatorGlyph c || isPlainSign c) := by
  simp [isOperatorChar, isOperatorGlyph, isPlainSign, Bool.or_assoc]

private theorem isPlainSign_of_isOperatorGlyph {c : Char} (h : isOperatorGlyph c) :
    isPlainSign c = false := by
  rcases isOperatorGlyph_cases h with rfl | rfl | rfl | rfl <;> rfl

private theorem isOperatorGlyph_glyphOf (c : Char) :
    isOperatorGlyph (glyphOf c) = isOperatorChar c := by
  rcases glyphOf_cases c with ⟨rfl, h⟩ | ⟨rfl, h⟩ | ⟨hplain, h⟩
  · rfl
  · rfl
  · rw [h, isOperatorChar_eq, hplain, Bool.or_false]

private theorem isLiteralChar_glyphOf (c : Char) : isLiteralChar (glyphOf c) = isLiteralChar c := by
  rcases glyphOf_cases c with ⟨rfl, h⟩ | ⟨rfl, h⟩ | ⟨-, h⟩
  · rfl
  · rfl
  · rw [h]

/-- What is no multiplication or division sign is told apart in both spellings alike. -/
theorem glyphOf_eq_iff {c d : Char} (hd : isProductSign d = false) : glyphOf c = d ↔ c = d := by
  rcases glyphOf_cases c with ⟨rfl, h⟩ | ⟨rfl, h⟩ | ⟨-, h⟩
  · rw [h]
    constructor
    · rintro rfl
      cases hd
    · rintro rfl
      cases hd
  · rw [h]
    constructor
    · rintro rfl
      cases hd
    · rintro rfl
      cases hd
  · rw [h]

private theorem isProductSign_eq (c : Char) :
    isProductSign c = (glyphOf c == '×' || glyphOf c == '÷') := by
  rcases glyphOf_cases c with ⟨rfl, h⟩ | ⟨rfl, h⟩ | ⟨hplain, h⟩
  · rfl
  · rfl
  · rw [h, isProductSign, hplain, Bool.or_false]

/-! ### Buffers -/

/-- A buffer with its operators as the display writes them. -/
def glyphs (b : List Char) : List Char :=
  b.map glyphOf

/-- Whether the last character of a buffer is a sign as the evaluator writes it. -/
def endsPlain (b : List Char) : Bool :=
  b.getLast?.any isPlainSign

section

variable {b : List Char}

private theorem glyphs_append (a b : List Char) : glyphs (a ++ b) = glyphs a ++ glyphs b :=
  List.map_append

/-- What holds no sign of the evaluator's is the same in both spellings. -/
theorem glyphs_eq_self (h : ∀ c ∈ b, isPlainSign c = false) : glyphs b = b := by
  have hself : ∀ c ∈ b, glyphOf c = id c := by
    intro c hc
    rcases glyphOf_cases c with ⟨rfl, -⟩ | ⟨rfl, -⟩ | ⟨-, heq⟩
    · cases h _ hc
    · cases h _ hc
    · exact heq
  rw [glyphs, List.map_congr_left hself, List.map_id]

private theorem getLast?_glyphs (b : List Char) : (glyphs b).getLast? = b.getLast?.map glyphOf :=
  List.getLast?_map

private theorem endsIn_glyphs {c : Char} (hc : isProductSign c = false) :
    endsIn (glyphs b) c = endsIn b c := by
  rw [endsIn, endsIn, getLast?_glyphs]
  cases b.getLast? with
  | none => rfl
  | some d => simp [glyphOf_eq_iff hc]

private theorem glyphs_eq_singleton_iff {c : Char} (hc : isProductSign c = false) :
    glyphs b = [c] ↔ b = [c] := by
  rw [glyphs, List.map_eq_singleton_iff]
  constructor
  · rintro ⟨d, rfl, hd⟩
    rw [(glyphOf_eq_iff hc).mp hd]
  · rintro rfl
    exact ⟨c, rfl, (glyphOf_eq_iff hc).mpr rfl⟩

private theorem glyphs_eq_zero_iff : glyphs b = zero ↔ b = zero :=
  glyphs_eq_singleton_iff rfl

private theorem any_isOperatorGlyph_glyphs (b : List Char) :
    (glyphs b).getLast?.any isOperatorGlyph = b.getLast?.any isOperatorChar := by
  rw [getLast?_glyphs]
  cases b.getLast? with
  | none => rfl
  | some c => exact isOperatorGlyph_glyphOf c

private theorem wantsValue_glyphs (b : List Char) :
    wantsValue (glyphs b) = (wantsValue b || endsPlain b) := by
  rw [wantsValue, wantsValue, endsPlain, getLast?_glyphs]
  cases b.getLast? with
  | none => rfl
  | some c =>
    have hopening : (glyphOf c == '(') = (c == '(') := by
      rw [Bool.eq_iff_iff, beq_iff_eq, beq_iff_eq, glyphOf_eq_iff rfl]
    simp only [Option.map_some, Option.all_some, Option.any_some]
    rw [isOperatorGlyph_glyphOf, isOperatorChar_eq, hopening, Bool.or_right_comm]

private theorem trailingNumber_glyphs (b : List Char) :
    trailingNumber (glyphs b) = trailingNumber b := by
  have hsame : isLiteralChar ∘ glyphOf = isLiteralChar := funext isLiteralChar_glyphOf
  have hliteral : ∀ c ∈ b.reverse.takeWhile isLiteralChar, isPlainSign c = false := by
    intro c hc
    have hc := List.all_eq_true.mp List.all_takeWhile c hc
    rw [← Bool.not_eq_true]
    intro hplain
    rw [isPlainSign, Bool.or_eq_true, beq_iff_eq, beq_iff_eq] at hplain
    rcases hplain with rfl | rfl <;> cases hc
  rw [trailingNumber, trailingNumber, glyphs, ← List.map_reverse, List.takeWhile_map, hsame]
  exact congrArg List.reverse (glyphs_eq_self hliteral)

private theorem dropLast_glyphs (b : List Char) : (glyphs b).dropLast = glyphs b.dropLast :=
  List.map_dropLast.symm

end

/-! ### Keys for which the spelling does not matter -/

section

variable (b : List Char)

private theorem glyphs_digits {run : List Char} (hrun : ∀ c ∈ run, c.isDigit) :
    glyphs run = run := by
  apply glyphs_eq_self
  intro c hc
  simp [isPlainSign, ne_of_isDigit (d := '*') (hrun c hc) rfl,
    ne_of_isDigit (d := '/') (hrun c hc) rfl]

private theorem glyphs_appendDigits {run : List Char} (hrun : ∀ c ∈ run, c.isDigit) :
    glyphs (appendDigits b run) = appendDigits (glyphs b) run := by
  unfold appendDigits
  rw [trailingNumber_glyphs, endsIn_glyphs rfl]
  split
  · rw [glyphs_append, dropLast_glyphs, glyphs_digits hrun]
  · split
    · rw [glyphs_append]
      exact congrArg (glyphs b ++ '×' :: ·) (glyphs_digits hrun)
    · rw [glyphs_append, glyphs_digits hrun]

private theorem glyphs_appendZeros {run : List Char} (hrun : ∀ c ∈ run, c.isDigit) :
    glyphs (appendZeros b run) = appendZeros (glyphs b) run := by
  unfold appendZeros
  rw [trailingNumber_glyphs, endsIn_glyphs rfl]
  split
  · rfl
  · split
    · split
      · exact glyphs_append b _
      · exact glyphs_append b _
    · rw [glyphs_append, glyphs_digits hrun]

private theorem glyphs_appendAfterValue {c : Char} (hc : c = '%' ∨ c = ')') :
    glyphs (appendAfterValue b c) = appendAfterValue (glyphs b) c := by
  unfold appendAfterValue
  rw [endsIn_glyphs rfl]
  simp only [glyphs_eq_zero_iff]
  split
  · rfl
  · rw [glyphs_append]
    rcases hc with rfl | rfl <;> rfl

private theorem glyphs_appendOpening : glyphs (appendOpening b) = appendOpening (glyphs b) := by
  unfold appendOpening
  rw [trailingNumber_glyphs, endsIn_glyphs rfl, endsIn_glyphs rfl]
  split
  · rw [glyphs_append, dropLast_glyphs]
    rfl
  · split
    · exact glyphs_append b _
    · exact glyphs_append b _

private theorem glyphs_backspace : glyphs (backspace b) = backspace (glyphs b) := by
  have hnil : glyphs b.dropLast = [] ↔ b.dropLast = [] := List.map_eq_nil_iff
  have hminus : glyphs b.dropLast = ['-'] ↔ b.dropLast = ['-'] := glyphs_eq_singleton_iff rfl
  unfold backspace
  dsimp only
  simp only [dropLast_glyphs, hnil, hminus]
  split
  · rfl
  · rfl

end

/-! ### Keys for which the spelling matters -/

section

variable {b : List Char}

/-- Nothing that the keys know stands at the end of a buffer that ends in a sign of the
evaluator's. -/
theorem exists_of_endsPlain (h : endsPlain b) : ∃ a c, b = a ++ [c] ∧ (c = '*' ∨ c = '/') := by
  rcases List.eq_nil_or_concat b with rfl | ⟨a, c, rfl⟩
  · cases h
  · rw [List.concat_eq_append] at h ⊢
    refine ⟨a, c, rfl, ?_⟩
    simpa [endsPlain, isPlainSign] using h

private theorem ne_zero_of_endsPlain (h : endsPlain b) : b ≠ zero := by
  rintro rfl
  cases h

private theorem wantsValue_of_endsPlain (h : endsPlain b) : wantsValue b = false := by
  obtain ⟨a, c, rfl, rfl | rfl⟩ := exists_of_endsPlain h
  · rw [wantsValue_concat]
    rfl
  · rw [wantsValue_concat]
    rfl

private theorem trailingNumber_of_endsPlain (h : endsPlain b) : trailingNumber b = [] := by
  obtain ⟨a, c, rfl, rfl | rfl⟩ := exists_of_endsPlain h
  · rw [trailingNumber_concat]
    rfl
  · rw [trailingNumber_concat]
    rfl

private theorem endsIn_of_endsPlain (h : endsPlain b) {c : Char} (hc : isPlainSign c = false) :
    endsIn b c = false := by
  obtain ⟨a, d, rfl, rfl | rfl⟩ := exists_of_endsPlain h
  · rw [endsIn_concat, beq_eq_false_iff_ne]
    rintro rfl
    cases hc
  · rw [endsIn_concat, beq_eq_false_iff_ne]
    rintro rfl
    cases hc

/-- The decimal point gets a zero before it only where the operator at the end is a glyph. -/
private theorem glyphs_appendDot_iff :
    glyphs (appendDot b) = appendDot (glyphs b) ↔ ¬ endsPlain b := by
  unfold appendDot
  rw [endsIn_glyphs rfl, trailingNumber_glyphs, wantsValue_glyphs]
  by_cases hplain : endsPlain b
  · rw [endsIn_of_endsPlain hplain rfl, trailingNumber_of_endsPlain hplain,
      wantsValue_of_endsPlain hplain, hplain]
    have hne : glyphs b ++ ['.'] ≠ glyphs b ++ ['0', '.'] := by simp
    exact iff_of_false ((glyphs_append b ['.']).trans_ne hne) (not_not_intro rfl)
  · rw [(Bool.not_eq_true _).mp hplain, Bool.or_false]
    refine iff_of_true ?_ (by simp)
    split
    · exact glyphs_append b _
    · split
      · rfl
      · split
        · exact glyphs_append b _
        · exact glyphs_append b _

private theorem count_glyphs {c : Char} (hc : isProductSign c = false) :
    (glyphs b).count c = b.count c := by
  rw [List.count_eq_countP, glyphs, List.countP_map, List.count_eq_countP]
  apply List.countP_congr
  intro d _
  rw [Function.comp_apply, beq_iff_eq, beq_iff_eq, glyphOf_eq_iff hc]

/-- What the parenthesis key takes for the end of a value is the same in both spellings. -/
private theorem any_getLast?_glyphs (b : List Char) :
    ((glyphs b).getLast?.any fun c ↦ isLiteralChar c || c == ')' || c == '%') =
      b.getLast?.any fun c ↦ isLiteralChar c || c == ')' || c == '%' := by
  rw [getLast?_glyphs]
  cases b.getLast? with
  | none => rfl
  | some c =>
    have heq {d : Char} (hd : isProductSign d = false) : (glyphOf c == d) = (c == d) := by
      rw [Bool.eq_iff_iff, beq_iff_eq, beq_iff_eq, glyphOf_eq_iff hd]
    simp only [Option.map_some, Option.any_some]
    rw [isLiteralChar_glyphOf, heq rfl, heq rfl]

private theorem any_getLast?_of_endsPlain (h : endsPlain b) :
    (b.getLast?.any fun c ↦ isLiteralChar c || c == ')' || c == '%') = false := by
  obtain ⟨a, c, rfl, rfl | rfl⟩ := exists_of_endsPlain h
  · rw [List.getLast?_concat]
    rfl
  · rw [List.getLast?_concat]
    rfl

/-- The parenthesis key takes a sign of the evaluator's for the end of a value, and closes what is
open behind it. -/
private theorem glyphs_parenthesis_iff :
    glyphs (parenthesis b) = parenthesis (glyphs b) ↔
      ¬ (endsPlain b ∧ b.count ')' < b.count '(') := by
  unfold parenthesis
  rw [count_glyphs rfl, count_glyphs rfl, wantsValue_glyphs, any_getLast?_glyphs]
  simp only [glyphs_eq_zero_iff]
  by_cases hplain : endsPlain b
  · rw [if_neg (ne_zero_of_endsPlain hplain), if_neg (ne_zero_of_endsPlain hplain),
      wantsValue_of_endsPlain hplain, any_getLast?_of_endsPlain hplain, hplain]
    by_cases hopen : b.count ')' < b.count '('
    · have hne : glyphs b ++ [')'] ≠ glyphs b ++ ['('] := by simp
      simp only [hopen, decide_true, Bool.not_false, Bool.and_true, if_true, Bool.or_true,
        Bool.not_true, Bool.and_false, Bool.false_eq_true, if_false, and_true, not_true, iff_false]
      exact (glyphs_append b [')']).trans_ne hne
    · simp only [hopen, decide_false, Bool.false_and, Bool.false_eq_true, if_false, and_false,
        not_false_eq_true, iff_true]
      exact glyphs_append b ['(']
  · rw [(Bool.not_eq_true _).mp hplain, Bool.or_false]
    refine iff_of_true ?_ (by simp)
    split
    · rfl
    · split
      · exact glyphs_append b _
      · split
        · exact glyphs_append b _
        · exact glyphs_append b _

end

/-! ### Operators over operators -/

/-- The operators at the end of a buffer, in either spelling. -/
def operatorsAtEnd (b : List Char) : List Char :=
  b.rtakeWhile isOperatorChar

/-- A buffer without the operators at its end, in either spelling. -/
def beforeOperators (b : List Char) : List Char :=
  b.rdropWhile isOperatorChar

/-- Whether one of the operators at the end of a buffer is written as the evaluator writes it. -/
def hasPlainSign (b : List Char) : Bool :=
  (operatorsAtEnd b).any isPlainSign

section

variable {b : List Char}

private theorem dropOperators_glyphs (b : List Char) :
    dropOperators (glyphs b) = glyphs (beforeOperators b) := by
  have hsame : isOperatorGlyph ∘ glyphOf = isOperatorChar := funext isOperatorGlyph_glyphOf
  rw [dropOperators, glyphs, ← List.map_reverse, List.dropWhile_map, hsame, ← List.map_reverse]
  rfl

/-- Where all operators at the end are glyphs, the spelling does not matter to what goes. -/
private theorem dropOperators_eq (h : hasPlainSign b = false) :
    dropOperators b = beforeOperators b := by
  induction b using List.reverseRecOn with
  | nil => rfl
  | append_singleton b c ih =>
    unfold hasPlainSign operatorsAtEnd at h
    rw [beforeOperators, dropOperators_concat, List.rdropWhile_concat]
    rw [List.rtakeWhile_concat] at h
    by_cases hc : isOperatorChar c
    · rw [if_pos hc, List.any_append, Bool.or_eq_false_iff] at h
      have hplain : isPlainSign c = false := by simpa using h.2
      have hglyph : isOperatorGlyph c := by rwa [isOperatorChar_eq, hplain, Bool.or_false] at hc
      rw [if_pos hc, if_pos hglyph]
      exact ih h.1
    · have hglyph : ¬ isOperatorGlyph c := by
        intro hglyph
        exact hc (by rw [isOperatorChar_eq, hglyph, Bool.true_or])
      rw [if_neg hc, if_neg hglyph]

/-- Otherwise it goes down to the last sign that is no glyph, and no further. -/
theorem endsPlain_dropOperators (h : hasPlainSign b) :
    endsPlain (dropOperators b) ∧ (beforeOperators b).length < (dropOperators b).length := by
  induction b using List.reverseRecOn with
  | nil => cases h
  | append_singleton b c ih =>
    unfold hasPlainSign operatorsAtEnd at h
    rw [List.rtakeWhile_concat] at h
    by_cases hc : isOperatorChar c
    · rw [if_pos hc, List.any_append] at h
      rw [beforeOperators, dropOperators_concat, List.rdropWhile_concat, if_pos hc]
      by_cases hglyph : isOperatorGlyph c
      · rw [if_pos hglyph]
        apply ih
        rwa [List.any_cons, isPlainSign_of_isOperatorGlyph hglyph, List.any_nil, Bool.or_false,
          Bool.or_false] at h
      · rw [if_neg hglyph]
        have hplain : isPlainSign c := by
          rwa [isOperatorChar_eq, (Bool.not_eq_true _).mp hglyph, Bool.false_or] at hc
        have hle := (List.rdropWhile_prefix isOperatorChar (l := b)).length_le
        refine ⟨by simpa [endsPlain] using hplain, ?_⟩
        rw [List.length_append, List.length_singleton]
        omega
    · rw [if_neg hc] at h
      cases h

/-- The last character of a buffer with operators at its end is one. -/
theorem any_isOperatorChar (h : operatorsAtEnd b ≠ []) : b.getLast?.any isOperatorChar := by
  rcases List.eq_nil_or_concat b with rfl | ⟨a, c, rfl⟩
  · exact absurd rfl h
  · rw [operatorsAtEnd, List.concat_eq_append, List.rtakeWhile_concat] at h
    rw [List.concat_eq_append, List.getLast?_concat, Option.any_some]
    by_contra hc
    exact h (if_neg hc)

private theorem ne_zero_of_operatorsAtEnd (h : operatorsAtEnd b ≠ []) : b ≠ zero := by
  rintro rfl
  cases any_isOperatorChar h

private theorem endsIn_opening_of_operatorsAtEnd (h : operatorsAtEnd b ≠ []) :
    endsIn b '(' = false := by
  rw [← Bool.not_eq_true, endsIn, beq_iff_eq]
  intro hopening
  have hlast := any_isOperatorChar h
  rw [hopening] at hlast
  cases hlast

private theorem operatorsAtEnd_ne_nil (h : hasPlainSign b) : operatorsAtEnd b ≠ [] := by
  intro hnil
  rw [hasPlainSign, hnil] at h
  cases h

/-- Whether an operator at the end of a buffer is the sign of the operand to come. -/
def isSignAfter (b : List Char) (op : Operator) : Bool :=
  op = .minus && b.getLast?.any isProductSign

/-- Whether no operand stands before the operators at the end of a buffer. -/
def lacksOperand (b : List Char) : Bool :=
  (beforeOperators b).isEmpty || endsIn (beforeOperators b) '('

private theorem isSignAfter_glyphs (b : List Char) (op : Operator) :
    (op = .minus && (endsIn (glyphs b) '×' || endsIn (glyphs b) '÷')) = isSignAfter b op := by
  rw [isSignAfter, endsIn, endsIn, getLast?_glyphs]
  cases b.getLast? with
  | none => simp
  | some c => simp [isProductSign_eq]

private theorem lacksOperand_glyphs (b : List Char) :
    ((glyphs (beforeOperators b)).isEmpty || endsIn (glyphs (beforeOperators b)) '(') =
      lacksOperand b := by
  rw [endsIn_glyphs rfl, glyphs, List.isEmpty_map, lacksOperand]

/-- Over glyphs an operator takes the place of all operators before it. -/
private theorem appendOperator_glyphs (h : operatorsAtEnd b ≠ []) (op : Operator) :
    appendOperator (glyphs b) op =
      if isSignAfter b op then glyphs b ++ ['-']
      else if lacksOperand b then glyphs b else glyphs (beforeOperators b) ++ [op.glyph] := by
  have hzero : glyphs b ≠ zero := mt glyphs_eq_zero_iff.mp (ne_zero_of_operatorsAtEnd h)
  unfold appendOperator
  dsimp only
  rw [if_neg hzero, endsIn_glyphs rfl, endsIn_opening_of_operatorsAtEnd h,
    any_isOperatorGlyph_glyphs, any_isOperatorChar h, isSignAfter_glyphs, dropOperators_glyphs,
    lacksOperand_glyphs]
  rfl

private theorem dropOperators_of_endsPlain (h : endsPlain b) : dropOperators b = b := by
  obtain ⟨a, c, rfl, rfl | rfl⟩ := exists_of_endsPlain h
  · rw [dropOperators_concat]
    rfl
  · rw [dropOperators_concat]
    rfl

/-- Over signs of the evaluator's it takes the place of those behind the last of them. -/
private theorem appendOperator_of_hasPlainSign (h : hasPlainSign b) (op : Operator) :
    appendOperator b op =
      if isSignAfter b op then b ++ ['-'] else dropOperators b ++ [op.glyph] := by
  have hne := operatorsAtEnd_ne_nil h
  have hlast := any_isOperatorChar hne
  unfold appendOperator
  dsimp only
  rw [if_neg (ne_zero_of_operatorsAtEnd hne), endsIn_opening_of_operatorsAtEnd hne, isSignAfter,
    endsIn, endsIn]
  cases hc : b.getLast? with
  | none =>
    rw [hc] at hlast
    cases hlast
  | some c =>
    rw [hc] at hlast
    cases hplain : isPlainSign c with
    | true =>
      have hends : endsPlain b := by rw [endsPlain, hc, Option.any_some, hplain]
      have hglyph : isOperatorGlyph c = false := by
        rw [← Bool.not_eq_true]
        intro hglyph
        rw [isPlainSign_of_isOperatorGlyph hglyph] at hplain
        cases hplain
      rw [dropOperators_of_endsPlain hends]
      cases op <;> simp [hglyph, isProductSign, hplain, Operator.glyph]
    | false =>
      have hglyph : isOperatorGlyph c := by
        rwa [Option.any_some, isOperatorChar_eq, hplain, Bool.or_false] at hlast
      have hbase := (endsPlain_dropOperators h).1
      have hempty : (dropOperators b).isEmpty = false := by
        obtain ⟨a, d, heq, -⟩ := exists_of_endsPlain hbase
        rw [heq]
        simp
      have hopening : endsIn (dropOperators b) '(' = false := endsIn_of_endsPlain hbase rfl
      simp [hglyph, hempty, hopening, isProductSign, hplain]

private theorem endsPlain_eq_false (h : hasPlainSign b = false) : endsPlain b = false := by
  rw [← Bool.not_eq_true]
  intro hplain
  obtain ⟨a, c, rfl, hc⟩ := exists_of_endsPlain hplain
  have hoperator : isOperatorChar c := by rcases hc with rfl | rfl <;> rfl
  rw [hasPlainSign, operatorsAtEnd, List.rtakeWhile_concat_pos _ _ _ hoperator,
    List.any_append] at h
  rcases hc with rfl | rfl <;> simp [isPlainSign] at h

/-- Where all operators at the end are glyphs, the spelling of the others does not matter. -/
private theorem glyphs_appendOperator (h : hasPlainSign b = false) (op : Operator) :
    glyphs (appendOperator b op) = appendOperator (glyphs b) op := by
  have hends := endsPlain_eq_false h
  have hlast : b.getLast?.any isOperatorChar = b.getLast?.any isOperatorGlyph := by
    cases hc : b.getLast? with
    | none => rfl
    | some c =>
      rw [endsPlain, hc, Option.any_some] at hends
      rw [Option.any_some, Option.any_some, isOperatorChar_eq, hends, Bool.or_false]
  have hsign : isSignAfter b op = (op = .minus && (endsIn b '×' || endsIn b '÷')) := by
    rw [isSignAfter, endsIn, endsIn]
    cases hc : b.getLast? with
    | none => simp
    | some c =>
      rw [endsPlain, hc, Option.any_some] at hends
      simp [isProductSign, hends]
  have hglyph : glyphs [op.glyph] = [op.glyph] := by cases op <;> rfl
  unfold appendOperator
  dsimp only
  simp only [glyphs_eq_zero_iff]
  rw [endsIn_glyphs rfl, any_isOperatorGlyph_glyphs, isSignAfter_glyphs, dropOperators_glyphs,
    hlast, hsign, lacksOperand_glyphs, lacksOperand, dropOperators_eq h]
  split
  · rfl
  · split
    · rfl
    · split
      · split
        · exact glyphs_append b _
        · split
          · rfl
          · rw [glyphs_append, hglyph]
      · rw [glyphs_append, hglyph]

/-- An operator leaves different buffers in the two spellings exactly if one of the operators at the
end is no glyph, except that a sign goes behind it in both, and that an operator which stands
there already for want of an operand is left there in both. -/
private theorem glyphs_appendOperator_iff (op : Operator) :
    glyphs (appendOperator b op) = appendOperator (glyphs b) op ↔
      ¬ (hasPlainSign b ∧ ¬ isSignAfter b op ∧
        ¬ (lacksOperand b ∧ b.rtakeWhile isOperatorGlyph = [op.glyph])) := by
  cases hplain : hasPlainSign b with
  | false => exact iff_of_true (glyphs_appendOperator hplain op) (by simp)
  | true =>
    rw [appendOperator_of_hasPlainSign hplain, appendOperator_glyphs (operatorsAtEnd_ne_nil hplain)]
    have hglyph : glyphs [op.glyph] = [op.glyph] := by cases op <;> rfl
    cases hsign : isSignAfter b op with
    | true => exact iff_of_true (glyphs_append b ['-']) (by simp)
    | false =>
      have hlonger := (endsPlain_dropOperators hplain).2
      rw [if_neg (by simp), if_neg (by simp), glyphs_append, hglyph]
      cases hlacks : lacksOperand b with
      | false =>
        have hne : glyphs (dropOperators b) ++ [op.glyph] ≠
            glyphs (beforeOperators b) ++ [op.glyph] := by
          intro heq
          have hlength := congrArg List.length heq
          simp only [glyphs, List.length_append, List.length_map, List.length_singleton] at hlength
          omega
        exact iff_of_false hne (by simp)
      | true =>
        have hb : dropOperators b ++ b.rtakeWhile isOperatorGlyph = b :=
          List.rdropWhile_append_rtakeWhile
        have htail : glyphs (b.rtakeWhile isOperatorGlyph) = b.rtakeWhile isOperatorGlyph :=
          glyphs_eq_self fun c hc ↦ isPlainSign_of_isOperatorGlyph (List.mem_rtakeWhile_imp hc)
        have heq : glyphs b = glyphs (dropOperators b) ++ b.rtakeWhile isOperatorGlyph := by
          rw [← htail, ← glyphs_append, hb]
        rw [if_pos rfl, heq, List.append_right_inj]
        simp [eq_comm]

end

/-! ### All keys -/

/-- Whether a key does different things at the end of a buffer in the two spellings. -/
def SpellingMatters (b : List Char) : Key → Prop
  | .dot => endsPlain b
  | .operator op =>
    hasPlainSign b ∧ ¬ isSignAfter b op ∧
      ¬ (lacksOperand b ∧ b.rtakeWhile isOperatorGlyph = [op.glyph])
  | _ => False

private theorem glyphs_append_iff {text : List Char} {key : Key} (h : Key.parse? text = some key)
    (b : List Char) : glyphs (append b key) = append (glyphs b) key ↔ ¬ SpellingMatters b key := by
  have hvalid := Key.valid_of_parse? h
  cases key with
  | digits run =>
    refine iff_of_true ?_ id
    unfold append
    dsimp only
    split
    · exact glyphs_appendZeros b hvalid.2
    · exact glyphs_appendDigits b hvalid.2
  | dot => exact glyphs_appendDot_iff
  | operator op => exact glyphs_appendOperator_iff op
  | percent => exact iff_of_true (glyphs_appendAfterValue b (.inl rfl)) id
  | opening => exact iff_of_true (glyphs_appendOpening b) id
  | closing => exact iff_of_true (glyphs_appendAfterValue b (.inr rfl)) id
  | answer text =>
    unfold Key.parse? at h
    split at h
    case h_14 => split at h <;> cases h
    all_goals cases h

/-- A key with a text does the same in both spellings exactly if the spelling does not matter to it,
and so does the parenthesis key, unless it would close a parenthesis behind a sign that is no glyph.
Deleting the last character always does the same. -/
theorem glyphs_edited_iff (b : List Char) :
    (∀ text key, Key.parse? text = some key →
      (glyphs (append b key) = append (glyphs b) key ↔ ¬ SpellingMatters b key)) ∧
    (glyphs (parenthesis b) = parenthesis (glyphs b) ↔
      ¬ (endsPlain b ∧ b.count ')' < b.count '(')) ∧
    glyphs (backspace b) = backspace (glyphs b) :=
  ⟨fun _ _ h ↦ glyphs_append_iff h b, glyphs_parenthesis_iff, glyphs_backspace b⟩

/-- Behind a slash a minus sign is put in both spellings. A multiplication sign replaces the glyph
`÷` but is put behind the slash. -/
theorem glyphs_edited_after_division :
    let b := "(2*3/".toList
    Key.parse? ['-'] = some (.operator .minus) ∧ ¬ SpellingMatters b (.operator .minus) ∧
      glyphs (append b (.operator .minus)) = append (glyphs b) (.operator .minus) ∧
      Key.parse? ['X'] = some (.operator .times) ∧ SpellingMatters b (.operator .times) ∧
      glyphs (append b (.operator .times)) ≠ append (glyphs b) (.operator .times) := by
  intro b
  have hsign : ¬ SpellingMatters b (.operator .minus) := fun h ↦ h.2.1 (by decide)
  have hproduct : SpellingMatters b (.operator .times) := ⟨by decide, by decide, by decide⟩
  have hkeys := (glyphs_edited_iff b).1
  exact ⟨rfl, hsign, (hkeys ['-'] _ rfl).mpr hsign, rfl, hproduct,
    fun heq ↦ (hkeys ['X'] _ rfl).mp heq hproduct⟩

/-- A plus sign replaces a glyph and is put behind a sign that is none; the parenthesis key opens
behind a glyph and closes behind a sign that is none. -/
theorem spelling_changes_edits :
    Key.parse? ['+'] = some (.operator .plus) ∧
      glyphs (append "5*".toList (.operator .plus)) = "5×+".toList ∧
      append (glyphs "5*".toList) (.operator .plus) = "5+".toList ∧
      glyphs (parenthesis "(5*".toList) = "(5×)".toList ∧
      parenthesis (glyphs "(5*".toList) = "(5×(".toList := by
  decide

end DeskCalculator.Buffer
