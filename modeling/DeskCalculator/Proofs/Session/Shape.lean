import DeskCalculator.Proofs.Buffer.Mending
import DeskCalculator.Proofs.Display.Faults
import DeskCalculator.Proofs.Session.Texts

/-!
# The shape of what is typed

A session that starts with an empty display and in which no text is entered keeps the shape that the
keys keep, whichever of them are pressed. So calculating can fail because an expression is
malformed, but not for a symbol and, but for one case, not for a number: a point that a repair has
parted from the percent sign before it is no number by itself.
-/

namespace DeskCalculator

open Expression (compute evaluate plain literals isLiteralChar CalcError EvalError)

namespace Buffer

/-- The characters that keys type. -/
private theorem char_of_follows {k : Lapses} {c d : Char} (h : follows k c d) :
    d.isDigit ∨ d ∈ ['.', '+', '-', '×', '÷', '%', '(', ')'] := by
  rcases follows_cases h with hdigit | rfl | hoperator | rfl | rfl | rfl
  · exact .inl hdigit
  · exact .inr (by decide)
  · rcases isOperatorGlyph_cases hoperator with rfl | rfl | rfl | rfl <;> exact .inr (by decide)
  · exact .inr (by decide)
  · exact .inr (by decide)
  · exact .inr (by decide)

/-- Each of them belongs to a number or is a symbol of display texts. -/
private theorem literal_or_symbol_of_follows {k : Lapses} {c d : Char} (h : follows k c d) :
    isLiteralChar d ∨ (Display.symbol? d).isSome := by
  rcases follows_cases h with hdigit | rfl | hoperator | rfl | rfl | rfl
  · exact .inl (isLiteralChar_of_isDigit hdigit)
  · exact .inl rfl
  · rcases isOperatorGlyph_cases hoperator with rfl | rfl | rfl | rfl <;> exact .inr rfl
  · exact .inr rfl
  · exact .inr rfl
  · exact .inr rfl

/-- At the beginning stands a digit, a minus sign or an opening parenthesis, which the evaluator
reads as they are. -/
private theorem plain_cons_of_follows_opening {k : Lapses} {c : Char} (h : follows k '(' c) :
    Expression.isGap c = false ∧
      ∀ cs, plain (c :: cs) = c :: Expression.plainAfter (some c) cs := by
  rcases follows_cases h with hdigit | rfl | hoperator | rfl | rfl | rfl
  · have hliteral := isLiteralChar_of_isDigit hdigit
    refine ⟨?_, Display.plainAfter_literal hliteral none⟩
    rw [← Bool.not_eq_true]
    intro hgap
    rw [Expression.isLiteralChar_of_isGap hgap] at hliteral
    cases hliteral
  · simp [follows_point, isOperatorGlyph] at h
  · rcases isOperatorGlyph_cases hoperator with rfl | rfl | rfl | rfl
    · cases h
    · exact ⟨rfl, fun _ ↦ rfl⟩
    · cases h
    · cases h
  · exact ⟨rfl, fun _ ↦ rfl⟩
  · cases h
  · cases h

/-- What cannot stand after an opening parenthesis. -/
theorem not_mem_of_follows_opening {k : Lapses} {d : Char} (h : follows k '(' d) :
    d ∉ ['+', '×', '÷', '%', ')'] := by
  intro hd
  simp only [List.mem_cons, List.not_mem_nil, or_false] at hd
  rcases hd with rfl | rfl | rfl | rfl | rfl <;> cases h

/-- What cannot stand after an operator. -/
private theorem not_mem_of_follows_operator {k : Lapses} {c d : Char}
    (hc : c ∈ ['+', '-', '×', '÷']) (h : follows k c d) : d ∉ ['+', '×', '÷'] := by
  intro hd
  simp only [List.mem_cons, List.not_mem_nil, or_false] at hc hd
  rcases hc with rfl | rfl | rfl | rfl <;> rcases hd with rfl | rfl | rfl <;> cases h

/-- A plain number wants no value after it. -/
private theorem not_wantsValue_of_isPlainNumber {t : List Char} (h : isPlainNumber t) :
    ¬ wantsValue t := by
  obtain ⟨p, hp, hvalue⟩ := Viable.nil.append_plainNumber h
  rw [List.nil_append] at hp
  rwa [hp.wantsValue_iff]

/-- All editing keeps the shape, and so do repairs where points after operators are allowed for. -/
private theorem stable_shaped {k : Lapses} {Fixes : Prop} (hopenings : k.openings)
    (hpoints : Fixes → k.points) : Stable (Shaped k) Key.Valid Fixes where
  zero := .zero
  chained x hx op := by
    have hplain := Number.isPlainNumber_displayText hx
    have hshaped : Shaped k (Number.displayText x) := (fitting_plainNumber hplain).shaped
    have hvalue := not_wantsValue_of_isPlainNumber hplain
    rw [wantsValue_iff] at hvalue
    refine ⟨by simp, hshaped.2.concat (follows_operator.mpr (.inr hvalue)) fun heq ↦ ?_⟩
    cases op <;> cases heq
  answer _ hx := Number.isPlainNumber_displayText hx
  fresh _ hkey := .fresh hkey
  append _ _ h hkey := h.append hkey fun _ _ ↦ hopenings
  backspace _ h := h.backspace
  toggleSign _ _ _ hb := .toggleSign hb
  parenthesis _ h := h.parenthesis
  suggestion hfixes _ _ _ h hfixed := h.suggestion (hpoints hfixes) hfixed

namespace Shaped

variable {k : Lapses} {b : List Char}

/-- A lone point is one that a repair has left. -/
private theorem points_of_hasLonePoint (h : Shaped k b) (hlone : Display.HasLonePoint none b) :
    k.points := by
  obtain ⟨before, after, rfl, hbefore⟩ := hlone
  have hbegins : before ++ ['.'] <+: before ++ '.' :: after := by simp
  have hpoint := (h.2.of_isPrefix hbegins).rel_lastChar
  rw [follows_point] at hpoint
  rcases List.eq_nil_or_concat before with rfl | ⟨a, c, rfl⟩
  · simp [lastChar, isOperatorGlyph] at hpoint
  · rw [List.concat_eq_append] at *
    rw [List.getLast?_concat] at hbefore
    obtain ⟨hdigit, hpercent⟩ := hbefore c rfl
    rw [lastChar_concat, hdigit, beq_eq_false_iff_ne.mpr hpercent, Bool.false_or, Bool.false_or,
      Bool.and_eq_true] at hpoint
    exact hpoint.1

/-- What the evaluator can find wrong with a buffer. -/
theorem evaluate_error (h : Shaped k b) {e : EvalError} (he : evaluate (plain b) = .error e) :
    (e = .nonFinite ∨ e = .unexpectedEnd ∨ ∃ found pos, e = .unexpectedToken found pos) ∨
      (Display.IsLonePointError e ∧ k.points) := by
  obtain ⟨c, cs, rfl⟩ := List.exists_cons_of_ne_nil h.1
  have hhead := plain_cons_of_follows_opening (List.isChain_cons_cons.mp h.2.chain).1
  have hchars : ∀ d ∈ c :: cs, isLiteralChar d ∨ (Display.symbol? d).isSome := by
    intro d hd
    obtain ⟨_, hfollows⟩ := h.2.exists_rel hd
    exact literal_or_symbol_of_follows hfollows
  rcases Display.evaluate_error hhead hchars h.2.points he with hplace | ⟨hpoint, hlone⟩
  · exact .inl hplace
  · exact .inr ⟨hpoint, h.points_of_hasLonePoint hlone⟩

/-- What a calculation can find wrong with a buffer. -/
private theorem compute_error (h : Shaped k b) {cause : EvalError}
    (he : compute b = .error (.invalidExpression cause)) :
    (cause = .nonFinite ∨ cause = .unexpectedEnd ∨
        ∃ found pos, cause = .unexpectedToken found pos) ∨
      (Display.IsLonePointError cause ∧ k.points) := by
  unfold compute at he
  cases hevaluate : evaluate (plain b) with
  | ok x =>
    rw [hevaluate] at he
    cases he
  | error e =>
    rw [hevaluate, Except.mapError, Expression.relabel] at he
    split at he
    · cases he
    · cases he
      exact h.evaluate_error hevaluate

end Shaped

end Buffer

/-- Whether an operation enters no text and presses only keys of the keypad. -/
def Operation.IsKeyed : Operation → Prop
  | .press key => key.OnKeypad
  | .enter _ => False
  | _ => True

/-- Such an operation types valid keys, and takes over a repair only if it is the operation for
that. -/
private theorem Operation.IsKeyed.within {op : Operation} (h : op.IsKeyed) {Fixes : Prop}
    (hfixes : op = .acceptFix → Fixes) : op.Within Buffer.Key.Valid Fixes := by
  cases op with
  | type text => exact fun _ hkey ↦ Buffer.Key.valid_of_parse? hkey
  | press key => exact Buffer.Key.OnKeypad.valid h
  | acceptFix => exact hfixes rfl
  | enter text => exact h.elim
  | _ => trivial

namespace Session

/-- Whichever keys are pressed, the buffer is not empty and made of the characters of the keys, no
number in it has two points, and neither at its beginning nor after an opening parenthesis nor after
an operator stands what cannot stand there. So a calculation cannot fail because there is nothing to
calculate or because of an unknown symbol, and because of a number only if that is a point by itself
and a repair has been taken over. -/
theorem buffer_shape (defaults : Defaults) {steps : List (History.Clock × Operation)}
    (hsteps : ∀ step ∈ steps, step.2.IsKeyed) :
    let s := (fresh defaults none).run steps
    (s.buffer ≠ [] ∧ (∀ c ∈ s.buffer, c.isDigit ∨ c ∈ ['.', '+', '-', '×', '÷', '%', '(', ')']) ∧
      (∀ run ∈ literals s.buffer, run.count '.' ≤ 1) ∧
      (∀ c ∈ s.buffer.head?, c ∉ ['+', '×', '÷', '%', ')']) ∧
      s.buffer.IsChain fun c d ↦ (c = '(' → d ∉ ['+', '×', '÷', '%', ')']) ∧
        (c ∈ ['+', '-', '×', '÷'] → d ∉ ['+', '×', '÷'])) ∧
    ∀ now cause d, (s.calculate now).session.phase = .failed (.invalidExpression cause) d →
      cause ≠ .empty ∧ (∀ symbol pos, cause ≠ .unknownSymbol symbol pos) ∧
        ∀ run pos, cause = .invalidNumber run pos →
          run = ['.'] ∧ ∃ step ∈ steps, step.2 = .acceptFix := by
  intro s
  -- A point can come to stand after an operator only in a run that takes over a repair.
  obtain ⟨k, hopenings, hpoints⟩ : ∃ k : Buffer.Lapses,
      k.openings ∧ (k.points ↔ ∃ step ∈ steps, step.2 = .acceptFix) := by
    by_cases hfix : ∃ step ∈ steps, step.2 = .acceptFix
    · exact ⟨⟨true, true⟩, rfl, iff_of_true rfl hfix⟩
    · exact ⟨⟨false, true⟩, rfl, iff_of_false (by simp) hfix⟩
  have hstable := Buffer.stable_shaped hopenings hpoints.mpr
  have htexts : s.AllTexts (Buffer.Shaped k) :=
    AllTexts.run hstable defaults fun step hstep ↦
      (hsteps step hstep).within fun heq ↦ ⟨step, hstep, heq⟩
  clear_value s
  have hshaped := htexts.buffer
  refine ⟨⟨hshaped.1, ?_, ?_, ?_, ?_⟩, ?_⟩
  · intro c hc
    obtain ⟨_, hfollows⟩ := hshaped.2.exists_rel hc
    exact Buffer.char_of_follows hfollows
  · exact Expression.pointsApart_iff.mp hshaped.2.points
  · intro c hc
    exact Buffer.not_mem_of_follows_opening (List.IsChain.rel_head? hshaped.2.chain hc)
  · apply (List.IsChain.tail hshaped.2.chain).imp
    intro c d hfollows
    constructor
    · rintro rfl
      exact Buffer.not_mem_of_follows_opening hfollows
    · exact fun hc ↦ Buffer.not_mem_of_follows_operator hc hfollows
  · intro now cause d hphase
    have hafter := AllTexts.calculate hstable htexts now
    have hcompute := (hafter.coherent.failed _ _ hphase).1
    rcases hafter.buffer.compute_error hcompute with hplace | ⟨⟨pos, rfl⟩, hlapse⟩
    · rcases hplace with rfl | rfl | ⟨found, pos, rfl⟩ <;> simp
    · refine ⟨by simp, by simp, fun run pos' heq ↦ ?_⟩
      cases heq
      exact ⟨rfl, hpoints.mp hlapse⟩

/-- Points and operators follow percent signs, a parenthesis is closed that was never opened, a
calculation fails and what is typed after it starts anew. No repair is taken over. -/
theorem buffer_shape_after_percents :
    let steps := List.map (Prod.mk (⟨0, 1970, 1, 1, 0, 0⟩ : History.Clock))
      [.type ['7'], .type ['-'], .type ['%'], .type ['.'], .type ['5'], .type ['.'], .calculate,
        .type [')'], .type ['('], .type ['-'], .type ['×'], .type ['%'], .press .dot, .type ['×'],
        .type ['÷']]
    let s := (fresh .standard none).run steps
    (∀ step ∈ steps, step.2.IsKeyed) ∧ s.buffer = "(-%.÷".toList ∧
      (∀ run ∈ literals s.buffer, run.count '.' ≤ 1) ∧
      ∀ now run pos d, (s.calculate now).session.phase ≠
        .failed (.invalidExpression (.invalidNumber run pos)) d := by
  intro steps s
  have hdot : Buffer.Key.dot.OnKeypad := .inl ⟨['.'], rfl⟩
  have hsteps : ∀ step ∈ steps, step.2.IsKeyed := by simp [steps, Operation.IsKeyed, hdot]
  have hbuffer : s.buffer = "(-%.÷".toList := by decide +kernel
  have hshape := buffer_shape .standard hsteps
  refine ⟨hsteps, hbuffer, hshape.1.2.2.1, fun now run pos d hphase ↦ ?_⟩
  obtain ⟨step, hstep, hfix⟩ := ((hshape.2 now _ d hphase).2.2 run pos rfl).2
  have hnofix : ∀ step ∈ steps, step.2 ≠ .acceptFix := by simp [steps]
  exact hnofix step hstep hfix

/-- A repair that drops a percent sign leaves a point by itself once the digit after the point is
deleted. -/
theorem invalidNumber_after_repair :
    let steps := List.map (Prod.mk (⟨0, 1970, 1, 1, 0, 0⟩ : History.Clock))
      [.type ['5'], .type ['+'], .type ['%'], .type ['.'], .type ['5'], .calculate, .acceptFix,
        .backspace, .calculate]
    let s := (fresh .standard none).run steps
    (∀ step ∈ steps, step.2.IsKeyed) ∧ s.buffer = "5+.".toList ∧
      s.error? = some (.invalidExpression (.invalidNumber ['.'] 2)) := by
  intro steps s
  exact ⟨by simp [steps, Operation.IsKeyed], by decide +kernel, by decide +kernel⟩

end Session

end DeskCalculator
