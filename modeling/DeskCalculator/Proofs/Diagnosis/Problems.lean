import DeskCalculator.Diagnosis.Problem
import DeskCalculator.Proofs.Display.Prefixes
import DeskCalculator.Proofs.Expression.Literals
import DeskCalculator.Proofs.Number.Division

/-!
# Problems are real

A text with a value has none of the problems that are looked for. Most of them are a symbol where
none of its kind can stand: an operator, a closing parenthesis or a percent sign where an operand is
due, and the beginning of an operand where an operator is due. Parentheses without a partner are
seen by counting, and a division by a literal zero is always carried out.
-/

namespace DeskCalculator.Expression

/-- An operand that divides by zero gives no finite number. -/
private theorem Pending.supply_zero {x : Float} (hx : x == 0) (sum : Option (Float × AddOp))
    (a : Float) :
    ({ sum, product := some (a, .divide) } : Pending).supply x = .error .nonFinite := by
  have hquotient : finite (MulOp.divide.apply a x) = .error .nonFinite := by
    rw [finite, MulOp.apply, Number.isFinite_div_zero hx a]
    rfl
  change (finite (MulOp.divide.apply a x) >>= _) = _
  rw [hquotient, error_bind]

/-- A division by a literal zero leaves no value, whatever stands around it. -/
private theorem not_evaluatesTokens_of_division_by_zero {ts : List Token} {ls ms : List Lexeme}
    {x y : Float}
    (hx : x == 0) (hts : ts.map Token.lexeme = ls ++ .mul .divide :: .number x :: ms) :
    evaluateTokens ts ≠ .ok y := by
  obtain ⟨us, vs, rfl, -, hvs⟩ := List.map_eq_append_iff.mp hts
  obtain ⟨⟨l, pos⟩, ws, rfl, rfl, hws⟩ := List.map_eq_cons_iff.mp hvs
  obtain ⟨⟨m, pos'⟩, more, rfl, rfl, -⟩ := List.map_eq_cons_iff.mp hws
  intro h
  rw [evaluateTokens, if_neg (by simp), State.run_append] at h
  cases hrun : State.start.run us with
  | error e =>
    rw [hrun] at h
    cases h
  | ok s =>
    rw [hrun, ok_bind] at h
    cases s with
    | operand p outer => cases h
    | operator d outer =>
      rw [State.run, State.step_mul, ok_bind, State.run, State.step_number,
        Pending.supply_zero hx] at h
      cases h

end DeskCalculator.Expression

namespace DeskCalculator.Diagnosis

open Display (Leads PercentsApart isFresh)
open Expression (Shape compute evaluate isLiteralChar isOperatorChar literals numeralValue plain
  plainAfter readNumeral?)
open Text (isBlank)

/-! ### Places -/

/-- A span is found exactly if it is found at some place. -/
private theorem isSome_firstSplit_iff {width : List Char → List Char → Option Nat}
    {seen rest : List Char} : (firstSplit width seen rest).isSome ↔
      ∃ before c after, rest = before ++ c :: after ∧
        (width (before.reverse ++ seen) (c :: after)).isSome := by
  induction rest generalizing seen with
  | nil => simp [firstSplit]
  | cons d rest ih =>
    rw [firstSplit]
    constructor
    · intro h
      split at h
      · next n hn => exact ⟨[], d, rest, rfl, by simp [hn]⟩
      · obtain ⟨before, c, after, rfl, hwidth⟩ := ih.mp h
        exact ⟨d :: before, c, after, rfl, by simpa using hwidth⟩
    · rintro ⟨before, c, after, heq, hwidth⟩
      split
      · rfl
      · next hnone =>
        rw [ih]
        cases before with
        | nil =>
          cases heq
          rw [List.reverse_nil, List.nil_append, hnone] at hwidth
          cases hwidth
        | cons e before =>
          cases heq
          exact ⟨before, c, after, rfl, by simpa using hwidth⟩

/-- A problem is found exactly if it begins at some character. -/
theorem Problem.isSome_find_iff {p : Problem} {cs : List Char} :
    (p.find cs).isSome ↔
      ∃ before c after, cs = before ++ c :: after ∧ (p.widthAt before.reverse c after).isSome := by
  rw [find, isSome_firstSplit_iff]
  simp only [List.append_nil, width]

/-- Where only what stands before a place counts, a text has a problem where its beginning has one
or at its last character. -/
theorem firstSplit_concat_eq_none_iff {width : List Char → List Char → Option Nat}
    (hwidth : ∀ seen c rest, width seen (c :: rest) = width seen [c]) {seen cs : List Char}
    {c : Char} :
    firstSplit width seen (cs ++ [c]) = none ↔
      firstSplit width seen cs = none ∧ width (cs.reverse ++ seen) [c] = none := by
  induction cs generalizing seen with
  | nil =>
    simp only [List.nil_append, List.reverse_nil, firstSplit]
    split
    · next n hn => simp [hn]
    · next hnone => simp [hnone]
  | cons d cs ih =>
    rw [List.cons_append, firstSplit, firstSplit, hwidth seen d (cs ++ [c]), hwidth seen d cs]
    cases width seen [d] with
    | none => simpa using ih
    | some n => simp

/-- What is seen from its place back and not found in a text is not found in its beginning. -/
theorem Problem.find_of_append {p : Problem} {cs ds : List Char}
    (hback : ∀ seen c rest, p.widthAt seen c rest = p.widthAt seen c [])
    (h : p.find (cs ++ ds) = none) : p.find cs = none := by
  induction ds using List.reverseRecOn with
  | nil => rwa [List.append_nil] at h
  | append_singleton ds c ih =>
    rw [← List.append_assoc] at h
    exact ih ((firstSplit_concat_eq_none_iff hback).mp h).1

/-! ### Symbols where they cannot stand -/

section

variable {before after : List Char} {c : Char} {s : Shape}

/-- Where an operand is due no operator can stand but a minus sign and a plus sign that means
nothing. -/
theorem not_leads_of_operator (hc : isOperatorChar c) (hminus : c ≠ '-')
    (hplus : c = '+' → isFresh before.getLast? = false)
    (hb : (solid? before.reverse).all fun c ↦ isOperatorChar c || c == '(') :
    ¬ Leads (before ++ c :: after) s := by
  simp only [isOperatorChar, Bool.or_eq_true, beq_iff_eq] at hc
  rcases hc with ((((rfl | rfl) | rfl) | rfl) | rfl) | rfl
  · exact Display.not_leads_of_operand hb (Display.plainAfter_plus (hplus rfl) after) rfl fun _ ↦ rfl
  · exact absurd rfl hminus
  · exact Display.not_leads_of_operand (d := '*') hb rfl rfl fun _ ↦ rfl
  · exact Display.not_leads_of_operand (d := '/') hb rfl rfl fun _ ↦ rfl
  · exact Display.not_leads_of_operand (d := '*') hb rfl rfl fun _ ↦ rfl
  · exact Display.not_leads_of_operand (d := '/') hb rfl rfl fun _ ↦ rfl

/-- Where an operator is due no opening parenthesis can stand. -/
private theorem not_leads_of_opening (hb : (solid? before.reverse).any endsValue) :
    ¬ Leads (before ++ '(' :: after) s := by
  intro h
  obtain ⟨q, q', -, hq, hstep, -⟩ := h.exists_step (d := '(') rfl rfl
  obtain ⟨n, rfl⟩ := hq.operator_of_endsValue hb
  cases n <;> cases hstep

/-- After an operator a plus sign means something, blanks passed over. -/
theorem isFresh_getLast? {w : List Char} (hc : c ≠ '(') (hw : ∀ d ∈ w, isBlank d) :
    isFresh (before ++ c :: w).getLast? = false := by
  have hlast : ∀ d ∈ (c :: w).getLast?, d ≠ '(' := by
    intro d hd
    rcases List.mem_cons.mp (List.mem_of_getLast? hd) with rfl | hmem
    · exact hc
    · rintro rfl
      cases hw '(' hmem
  obtain ⟨d, hd⟩ : ∃ d, (c :: w).getLast? = some d := ⟨_, List.getLast?_cons⟩
  rw [List.getLast?_append, hd, Option.some_or, isFresh, Option.all_some, beq_eq_false_iff_ne]
  exact hlast d hd

/-- The blanks at the beginning of a text and what is left without them. -/
private theorem exists_blanks_append (cs : List Char) :
    ∃ w rest, cs = w ++ rest ∧ (∀ d ∈ w, isBlank d) ∧
      cs.drop (cs.takeWhile isBlank).length = rest := by
  have hsplit : cs.takeWhile isBlank ++ cs.dropWhile isBlank = cs := List.takeWhile_append_dropWhile
  refine ⟨cs.takeWhile isBlank, cs.dropWhile isBlank, hsplit.symm,
    List.all_eq_true.mp List.all_takeWhile, ?_⟩
  nth_rewrite 2 [← hsplit]
  rw [List.drop_left]

/-- A text whose leading run is not empty begins with a character of a literal. -/
private theorem exists_cons_of_mem_leadingRun {cs : List Char} (h : c ∈ leadingRun cs) :
    ∃ d rest, cs = d :: rest ∧ isLiteralChar d := by
  cases cs with
  | nil => cases h
  | cons d rest =>
    rw [leadingRun, List.takeWhile_cons] at h
    split at h
    · next hd => exact ⟨d, rest, rfl, hd⟩
    · cases h

/-- A number that stands first, blanks passed over, is the first lexeme. -/
theorem exists_number_of_lexes {w rest : List Char} {prev : Option Char}
    {ls : List Expression.Lexeme} (hw : ∀ d ∈ w, isBlank d) (hc : isLiteralChar c)
    (h : Expression.Lexes (plainAfter prev (w ++ c :: rest)) ls) :
    ∃ ms, ls = .number (numeralValue (leadingRun (c :: rest))) :: ms := by
  obtain ⟨run, more, heq, hne, hrun, hends, -⟩ := Expression.exists_maximal_run hc rest
  rw [leadingRun, heq, Expression.takeWhile_isLiteralChar hrun hends]
  rw [heq, Display.plainAfter_append, Display.plainAfter_blanks hw] at h
  obtain ⟨e, he, hplain⟩ := Display.plainAfter_run_append hne hrun (w.getLast?.or prev) more
  rw [hplain] at h
  obtain ⟨-, ms, rfl, -⟩ :=
    (Expression.lexes_run_append_iff hne hrun (Display.endsRun_plainAfter he hends)).mp
      (Display.lexes_of_blanks hw h)
  exact ⟨ms, rfl⟩

end

/-! ### Parentheses -/

/-- Where every parenthesis has its partner, as many are opened as closed. -/
theorem count_of_balancedFrom {depth : Nat} {cs : List Char} (h : balancedFrom depth cs) :
    depth + cs.count '(' = cs.count ')' := by
  induction cs generalizing depth with
  | nil => simpa [balancedFrom] using h
  | cons c cs ih =>
    rw [balancedFrom] at h
    by_cases hopening : c = '('
    · subst hopening
      have hrest := ih h
      rw [List.count_cons_self, List.count_cons_of_ne (by decide)]
      omega
    · rw [if_neg (by simpa using hopening)] at h
      by_cases hclosing : c = ')'
      · subst hclosing
        rw [if_pos (by decide), Bool.and_eq_true, bne_iff_ne] at h
        have hrest := ih h.2
        rw [List.count_cons_self, List.count_cons_of_ne (by decide)]
        omega
      · rw [if_neg (by simpa using hclosing)] at h
        rw [List.count_cons_of_ne hopening, List.count_cons_of_ne hclosing]
        exact ih h

theorem openAfter_concat (cs : List Char) (c : Char) :
    openAfter 0 (cs ++ [c]) = if c = '(' then openAfter 0 cs + 1
      else if c = ')' then openAfter 0 cs - 1 else openAfter 0 cs := by
  simp only [openAfter, List.foldl_append, List.foldl_cons, List.foldl_nil, beq_iff_eq]

/-- Without a closing parenthesis that has no partner the open ones are counted exactly. -/
theorem openAfter_add_count {cs : List Char} (h : Problem.unmatchedClose.find cs = none) :
    openAfter 0 cs + cs.count ')' = cs.count '(' := by
  induction cs using List.reverseRecOn with
  | nil => rfl
  | append_singleton cs c ih =>
    obtain ⟨hcs, hc⟩ := (firstSplit_concat_eq_none_iff fun _ _ _ ↦ rfl).mp h
    have hrest := ih hcs
    rw [openAfter_concat, List.count_append, List.count_append]
    by_cases hopening : c = '('
    · subst hopening
      rw [if_pos rfl, List.count_singleton_self, List.count_cons_of_ne (by decide), List.count_nil]
      omega
    · rw [if_neg hopening, List.count_cons_of_ne hopening]
      by_cases hclosing : c = ')'
      · subst hclosing
        have hpartner : cs.count ')' < cs.count '(' := by
          simpa [Problem.width, Problem.widthAt] using hc
        rw [if_pos rfl, List.count_singleton_self, List.count_nil]
        omega
      · rw [if_neg hclosing, List.count_cons_of_ne hclosing, List.count_nil, List.count_nil]
        omega

/-! ### Number literals -/

/-- The literals of a display text are numbers. -/
private theorem isSome_readNumeral?_of_mem_literals {fresh : Bool} {cs run : List Char}
    {ls : List Display.Lexeme} (h : Display.Lexes fresh cs ls) (hrun : run ∈ literals cs) :
    (readNumeral? run).isSome := by
  induction h with
  | nil => cases hrun
  | gap hc h ih =>
    rw [Expression.literals_cons_mark (Expression.isLiteralChar_of_isGap hc)] at hrun
    exact ih hrun
  | leadingPlus h ih =>
    rw [Expression.literals_cons_mark rfl] at hrun
    exact ih hrun
  | symbol hc hplus h ih =>
    rw [Expression.literals_cons_mark (Display.isLiteralChar_of_symbol? hc)] at hrun
    exact ih hrun
  | @number fresh first rest ls literal digit point maximal h ih =>
    have hne : first ≠ [] := by
      obtain ⟨c, hc, -⟩ := digit
      exact List.ne_nil_of_mem hc
    rw [Expression.literals_run_append hne literal maximal] at hrun
    rcases List.mem_cons.mp hrun with rfl | hrun
    · rw [Expression.readNumeral?_eq_some_iff.mpr ⟨⟨digit, point⟩, rfl⟩]
      rfl
    · exact ih hrun

/-! ### Classes of characters -/

/-- No operator is blank. -/
theorem isBlank_of_isOperatorChar {c : Char} (h : isOperatorChar c) : isBlank c = false := by
  simp only [isOperatorChar, Bool.or_eq_true, beq_iff_eq] at h
  rcases h with ((((rfl | rfl) | rfl) | rfl) | rfl) | rfl <;> decide

/-- No digit and no point is an operator. -/
theorem isOperatorChar_of_isLiteralChar {c : Char} (h : isLiteralChar c) :
    isOperatorChar c = false := by
  rw [← Bool.not_eq_true]
  intro hoperator
  simp only [isOperatorChar, Bool.or_eq_true, beq_iff_eq] at hoperator
  rcases hoperator with ((((rfl | rfl) | rfl) | rfl) | rfl) | rfl <;> cases h

/-- No end of a value is blank. -/
theorem isBlank_of_endsValue {c : Char} (h : endsValue c) : isBlank c = false := by
  rw [← Bool.not_eq_true]
  intro hblank
  rw [endsValue, Display.isLiteralChar_of_isBlank hblank, Bool.false_or, Bool.or_eq_true,
    beq_iff_eq, beq_iff_eq] at h
  rcases h with rfl | rfl <;> cases hblank

/-- Every symbol is known. -/
private theorem isKnown_of_symbol? {c : Char} (h : (Expression.symbol? c).isSome) : isKnown c := by
  unfold Expression.symbol? at h
  split at h <;> first | rfl | cases h

/-! ### Texts with a value -/

namespace Problem

variable {before after : List Char} {c : Char} {s : Shape}

private theorem widthAt_unknownSymbol (h : Leads (before ++ c :: after) s) :
    unknownSymbol.widthAt before.reverse c after = none := by
  rw [widthAt, if_pos]
  rw [← Bool.not_eq_false]
  intro hunknown
  have hparts := hunknown
  simp only [isKnown, isOperatorChar, Bool.or_eq_false_iff, beq_eq_false_iff_ne] at hparts
  obtain ⟨⟨⟨⟨⟨hliteral, ⟨⟨⟨⟨⟨hplus, -⟩, htimes⟩, hdivide⟩, -⟩, -⟩⟩, hpercent⟩, -⟩, -⟩, hblank⟩ :=
    hparts
  rcases h.isGap_or_symbol? hliteral
    (Display.plainAfter_cons htimes hdivide hpercent hplus _ after) with hgap | hsymbol
  · rw [Display.isBlank_of_isGap hgap] at hblank
    cases hblank
  · rw [isKnown_of_symbol? hsymbol] at hunknown
    cases hunknown

private theorem widthAt_misplacedPercent (h : Leads (before ++ c :: after) s) :
    misplacedPercent.widthAt before.reverse c after = none := by
  rw [widthAt, if_neg]
  intro hmisplaced
  rw [Expression.isMisplacedPercent, Bool.and_eq_true, beq_iff_eq] at hmisplaced
  obtain ⟨rfl, hb⟩ := hmisplaced
  exact Display.not_leads_of_operand (d := '/') hb rfl rfl (fun _ ↦ rfl) h

/-- A number that is not written correctly is one of the literals. -/
theorem exists_mem_literals_of_invalidNumber
    (h : invalidNumber.widthAt before.reverse c after ≠ none) :
    ∃ run ∈ literals (before ++ c :: after), readNumeral? run = none := by
  rw [widthAt] at h
  split at h
  · exact absurd rfl h
  · next hinvalid =>
    rw [Bool.not_eq_true, Bool.or_eq_false_iff, Bool.or_eq_false_iff, List.head?_reverse]
      at hinvalid
    obtain ⟨⟨hne, hbefore⟩, hread⟩ := hinvalid
    have hc : isLiteralChar c := by
      rw [← Bool.not_eq_false]
      intro hc
      rw [leadingRun, List.takeWhile_cons, hc] at hne
      cases hne
    obtain ⟨run, rest, heq, hne, hrun, hends, -⟩ := Expression.exists_maximal_run hc after
    rw [leadingRun, heq, Expression.takeWhile_isLiteralChar hrun hends] at hread
    rw [heq]
    refine ⟨run, Expression.mem_literals (fun d hd ↦ ?_) hne hrun hends,
      Option.isSome_eq_false_iff.mp hread |> Option.isNone_iff_eq_none.mp⟩
    rw [Option.mem_def.mp hd] at hbefore
    exact hbefore

private theorem widthAt_invalidNumber (hp : PercentsApart (before ++ c :: after))
    (h : Leads (before ++ c :: after) s) :
    invalidNumber.widthAt before.reverse c after = none := by
  cases hwidth : invalidNumber.widthAt before.reverse c after with
  | none => rfl
  | some n =>
    obtain ⟨run, hrun, hread⟩ := exists_mem_literals_of_invalidNumber (by rw [hwidth]; simp)
    obtain ⟨ms, hms, -⟩ := h
    obtain ⟨ls, hls, -⟩ := Display.exists_lexes_of_plainAfter hms hp
    have hsome := isSome_readNumeral?_of_mem_literals hls hrun
    rw [hread] at hsome
    cases hsome

theorem widthAt_strayOperator (h : Leads (before ++ c :: after) s) :
    strayOperator.widthAt before.reverse c after = none := by
  rw [widthAt, if_neg, if_neg]
  · intro hstray
    rw [Bool.and_eq_true] at hstray
    obtain ⟨w, d, rest, rfl, hw, hd⟩ := Display.exists_of_any_solid? hstray.2
    rw [Bool.and_eq_true, bne_iff_ne] at hd
    rw [← List.cons_append, ← List.append_assoc] at h
    have hopening : c ≠ '(' := by
      rintro rfl
      cases hstray.1
    refine not_leads_of_operator hd.1 hd.2 (fun _ ↦ isFresh_getLast? hopening hw) ?_ h
    rw [Display.solid?_reverse (isBlank_of_isOperatorChar hstray.1) hw, Option.all_some, hstray.1]
    rfl
  · intro hfirst
    rw [Bool.and_eq_true] at hfirst
    obtain ⟨hc, hb⟩ := hfirst
    have hdue : (solid? before.reverse).all fun c ↦ isOperatorChar c || c == '(' := by
      revert hb
      cases solid? before.reverse with
      | none => exact fun _ ↦ rfl
      | some d =>
        intro hd
        have hopening : (d == '(') = true := hd
        rw [Option.all_some, hopening, Bool.or_true]
    simp only [isFactorOperator, Bool.or_eq_true, beq_iff_eq] at hc
    have hfactor : isOperatorChar c ∧ c ≠ '-' ∧ c ≠ '+' := by
      rcases hc with ((rfl | rfl) | rfl) | rfl <;> decide
    obtain ⟨hoperator, hminus, hplus⟩ := hfactor
    exact not_leads_of_operator hoperator hminus (fun heq ↦ absurd heq hplus) hdue h

theorem widthAt_missingOperator (h : Leads (before ++ c :: after) s) :
    missingOperator.widthAt before.reverse c after = none := by
  rw [widthAt, if_neg]
  intro hmissing
  obtain ⟨w, d, rest, rfl, hw, hd⟩ := Display.exists_of_any_solid? hmissing
  rw [Bool.or_eq_true, Bool.and_eq_true, Bool.and_eq_true, beq_iff_eq, beq_iff_eq] at hd
  rcases hd with ⟨hc, rfl⟩ | ⟨rfl, hd⟩
  · rw [← List.cons_append, ← List.append_assoc] at h
    refine not_leads_of_opening ?_ h
    rw [Display.solid?_reverse (isBlank_of_endsValue hc) hw, Option.any_some, hc]
  · obtain ⟨q, q', ls, -, hstep, hls, hrun⟩ := h.exists_step (d := ')') rfl rfl
    obtain ⟨ms, rfl⟩ := exists_number_of_lexes hw hd hls
    obtain ⟨s, hs, -⟩ := Option.bind_eq_some_iff.mp hrun
    -- After a closing parenthesis an operator is due.
    cases q with
    | operand n => cases hstep
    | operator n =>
      cases n with
      | zero => cases hstep
      | succ n =>
        cases hstep
        cases n <;> cases hs

private theorem widthAt_unmatchedClose (h : Leads (before ++ c :: after) s) :
    unmatchedClose.widthAt before.reverse c after = none := by
  rw [widthAt, if_neg]
  intro hunmatched
  rw [Bool.and_eq_true, beq_iff_eq, decide_eq_true_eq, List.count_reverse, List.count_reverse]
    at hunmatched
  obtain ⟨rfl, hcount⟩ := hunmatched
  obtain ⟨q, q', ls, hq, hstep, -⟩ := h.exists_step (d := ')') rfl rfl
  have hdepth := hq.count_opening
  cases q with
  | operand n => cases hstep
  | operator n =>
    cases n with
    | zero => cases hstep
    | succ n =>
      rw [Shape.depth] at hdepth
      omega

theorem widthAt_emptyParens (h : Leads (before ++ c :: after) s) :
    emptyParens.widthAt before.reverse c after = none := by
  rw [widthAt, if_neg]
  intro hempty
  rw [Bool.and_eq_true, beq_iff_eq] at hempty
  obtain ⟨rfl, hnext⟩ := hempty
  obtain ⟨w, d, rest, rfl, hw, hd⟩ := Display.exists_of_any_solid? hnext
  obtain rfl := beq_iff_eq.mp hd
  rw [← List.cons_append, ← List.append_assoc] at h
  refine Display.not_leads_of_operand (d := ')') ?_ rfl rfl (fun _ ↦ rfl) h
  rw [Display.solid?_reverse (by decide) hw]
  rfl

theorem widthAt_trailingOperator (h : Leads (before ++ c :: after) (.operator 0)) :
    trailingOperator.widthAt before.reverse c after = none := by
  rw [widthAt, if_neg]
  intro htrailing
  rw [Bool.and_eq_true, List.all_eq_true] at htrailing
  obtain ⟨hc, hblank⟩ := htrailing
  have hdue : (solid? (before ++ c :: after).reverse).all fun c ↦ isOperatorChar c || c == '(' := by
    rw [Display.solid?_reverse (isBlank_of_isOperatorChar hc) hblank, Option.all_some, hc]
    rfl
  obtain ⟨n, hn⟩ := h.operand_of_isOperatorChar hdue
  cases hn

private theorem widthAt_unclosedParen (h : Leads (before ++ c :: after) (.operator 0)) :
    unclosedParen.widthAt before.reverse c after = none := by
  rw [widthAt, if_neg]
  intro hunclosed
  rw [Bool.and_eq_true, beq_iff_eq] at hunclosed
  obtain ⟨rfl, hbalanced⟩ := hunclosed
  have hafter := count_of_balancedFrom hbalanced
  have hall := h.count_opening
  obtain ⟨q, q', ls, hq, -⟩ := h.exists_step (d := '(') rfl rfl
  have hbefore := hq.count_opening
  rw [List.count_append, List.count_append, List.count_cons_self,
    List.count_cons_of_ne (by decide), Shape.depth] at hall
  omega

private theorem widthAt_divisionByZero {x : Float}
    (h : evaluate (plain (before ++ c :: after)) = .ok x) :
    divisionByZero.widthAt before.reverse c after = none := by
  rw [widthAt, if_neg]
  intro hzero
  rw [Bool.and_eq_true, Bool.or_eq_true, beq_iff_eq, beq_iff_eq] at hzero
  obtain ⟨hc, hread⟩ := hzero
  obtain ⟨w, rest, rfl, hblank, hdrop⟩ := exists_blanks_append after
  rw [hdrop] at hread
  cases hnumber : readNumeral? (leadingRun rest) with
  | none =>
    rw [hnumber] at hread
    cases hread
  | some z =>
    rw [hnumber, Option.any_some] at hread
    obtain ⟨⟨⟨e, he, -⟩, -⟩, rfl⟩ := Expression.readNumeral?_eq_some_iff.mp hnumber
    obtain ⟨d, rest, rfl, hd⟩ := exists_cons_of_mem_leadingRun he
    have hplain : plainAfter before.getLast? (c :: (w ++ d :: rest)) =
        '/' :: plainAfter (some c) (w ++ d :: rest) := by
      rcases hc with rfl | rfl <;> rfl
    obtain ⟨ls, hls⟩ := Expression.exists_lexes_of_evaluate h
    obtain ⟨ts, hts, heq⟩ := hls.exists_evaluate_eq
    rw [Display.plain_append, hplain] at hls
    obtain ⟨ms, ns, -, hns, rfl⟩ := hls.exists_of_append_symbol rfl
    obtain ⟨ks, rfl⟩ := exists_number_of_lexes hblank hd hns
    rw [heq] at h
    exact Expression.not_evaluatesTokens_of_division_by_zero hread hts h

end Problem

/-- What is no problem at any character is not found. -/
theorem Problem.find_eq_none {p : Problem} {cs : List Char}
    (h : ∀ before c after, cs = before ++ c :: after →
      p.widthAt before.reverse c after = none) : p.find cs = none := by
  rw [← Option.not_isSome_iff_eq_none, isSome_find_iff]
  rintro ⟨before, c, after, heq, hwidth⟩
  rw [h before c after heq] at hwidth
  cases hwidth

theorem Problem.find_unmatchedClose {cs : List Char} {s : Shape} (h : Leads cs s) :
    unmatchedClose.find cs = none := by
  apply find_eq_none
  rintro before c after rfl
  exact widthAt_unmatchedClose h

theorem Problem.find_misplacedPercent {cs : List Char} {s : Shape} (h : Leads cs s) :
    misplacedPercent.find cs = none := by
  apply find_eq_none
  rintro before c after rfl
  exact widthAt_misplacedPercent h

/-- The parentheses that are open after a text are those of its shape. -/
theorem openAfter_eq_depth {cs : List Char} {q : Shape} (h : Leads cs q) :
    openAfter 0 cs = q.depth := by
  have hopen := openAfter_add_count (Problem.find_unmatchedClose h)
  have hdepth := h.count_opening
  omega

/-- A problem that is found is real: the expression has no value. A number can be written in a way
that is no number and still be read as one only directly after a percent sign. -/
theorem error_of_isSome_find {p : Problem} {cs : List Char}
    (hp : p = .invalidNumber → PercentsApart cs) (h : (p.find cs).isSome) :
    ∃ e, compute cs = .error e := by
  cases hvalue : compute cs with
  | error e => exact ⟨e, rfl⟩
  | ok x =>
    have hevaluate := Display.compute_eq_ok_iff_evaluate.mp hvalue
    have hleads := Display.leads_of_evaluate hevaluate
    obtain ⟨before, c, after, rfl, hwidth⟩ := Problem.isSome_find_iff.mp h
    have hnone : p.widthAt before.reverse c after = none := by
      cases p with
      | unknownSymbol => exact Problem.widthAt_unknownSymbol hleads
      | misplacedPercent => exact Problem.widthAt_misplacedPercent hleads
      | invalidNumber => exact Problem.widthAt_invalidNumber (hp rfl) hleads
      | strayOperator => exact Problem.widthAt_strayOperator hleads
      | missingOperator => exact Problem.widthAt_missingOperator hleads
      | unmatchedClose => exact Problem.widthAt_unmatchedClose hleads
      | emptyParens => exact Problem.widthAt_emptyParens hleads
      | trailingOperator => exact Problem.widthAt_trailingOperator hleads
      | unclosedParen => exact Problem.widthAt_unclosedParen hleads
      | divisionByZero => exact Problem.widthAt_divisionByZero hevaluate
    rw [hnone] at hwidth
    cases hwidth

/-- A zero with a point divides between blanks, inside a group; and a number with two points stands
behind a percent sign. -/
theorem error_of_division_and_of_number :
    ((Problem.divisionByZero.find "2×(8 ÷ 0.0)".toList).isSome ∧
      ∃ e, compute "2×(8 ÷ 0.0)".toList = .error e) ∧
    PercentsApart "5%×1.2.3".toList ∧ (Problem.invalidNumber.find "5%×1.2.3".toList).isSome ∧
      ∃ e, compute "5%×1.2.3".toList = .error e := by
  have hdivision : (Problem.divisionByZero.find "2×(8 ÷ 0.0)".toList).isSome := by decide +kernel
  have hapart : PercentsApart "5%×1.2.3".toList := by decide
  have hnumber : (Problem.invalidNumber.find "5%×1.2.3".toList).isSome := by decide +kernel
  exact ⟨⟨hdivision, error_of_isSome_find (fun heq ↦ by cases heq) hdivision⟩, hapart, hnumber,
    error_of_isSome_find (fun _ ↦ hapart) hnumber⟩

/-- After a percent sign a point can stand alone, since it belongs to the number `100`. -/
example : (Problem.invalidNumber.find "2%.".toList).isSome ∧ compute "2%.".toList = .ok 0.02 := by
  decide +kernel

end DeskCalculator.Diagnosis
