import DeskCalculator.Proofs.Buffer.Value
import DeskCalculator.Proofs.Diagnosis.Kept
import DeskCalculator.Proofs.Diagnosis.Repair

/-!
# Repairing a typed buffer

A typed buffer has no percent signs and no blanks, so its repair drops at most one operator and
closes what is open. Where an operand is due a closing parenthesis has no value, so a repair that is
offered can be typed.
-/

namespace DeskCalculator.Buffer

open Diagnosis (mend diagnose openAfter dropTrailingOperator)
open Expression (Lexes Shape plain plainAfter evaluate)

/-- No key types a blank. -/
theorem Typable.isBlank_eq_false {c : Char} (h : Typable c) : Text.isBlank c = false := by
  rcases h with h | h | rfl | rfl
  · rw [← Bool.not_eq_true]
    intro hblank
    rw [Display.isLiteralChar_of_isBlank hblank] at h
    cases h
  · rcases isOperatorGlyph_cases h with rfl | rfl | rfl | rfl <;> decide
  · decide
  · decide

namespace Viable

variable {b : List Char} {p : Place} {n : Nat}

/-- A buffer has no blanks at its end. -/
theorem trimRight_eq (h : Viable b p n) : Text.trimRight b = b :=
  Diagnosis.trimRight_eq_self fun _ hc ↦
    (h.typable_of_mem (List.mem_of_getLast? hc)).isBlank_eq_false

/-- The open parentheses of a buffer are counted. -/
private theorem openAfter_eq (h : Viable b p n) : openAfter 0 b = n := by
  obtain ⟨ls, hls, hrun, -⟩ := h.reads
  rw [Diagnosis.openAfter_eq_depth ⟨ls, hls, hrun⟩]
  cases p <;> rfl

/-- Without an operator at its end a buffer is still the beginning of an expression. -/
theorem dropTrailingOperator (h : Viable b p n) : ∃ q m, Viable (dropTrailingOperator b) q m := by
  unfold Diagnosis.dropTrailingOperator
  split
  · exact h.dropLast
  · exact ⟨p, n, h⟩

/-- A repair closes what is open once an operator at the end is dropped. -/
private theorem mend_eq (h : Viable b p n) :
    ∃ q m, Viable (Diagnosis.dropTrailingOperator b) q m ∧
      mend b = Diagnosis.dropTrailingOperator b ++ List.replicate m ')' := by
  obtain ⟨q, m, hkept⟩ := h.dropTrailingOperator
  refine ⟨q, m, hkept, ?_⟩
  have hpercents := hasMisplacedPercentAfter_eq_false h.percent_not_mem none
  rw [mend, Diagnosis.dropPercentsAfter_eq_self hpercents, h.trimRight_eq, hkept.openAfter_eq]

end Viable

/-- Closing parentheses have their lexemes. -/
private theorem lexes_closing (k : Nat) :
    Lexes (List.replicate k ')') (List.replicate k Expression.Lexeme.closing) := by
  induction k with
  | zero => exact .nil
  | succ k ih => exact .symbol rfl ih

private theorem plainAfter_closing (prev : Option Char) (k : Nat) :
    plainAfter prev (List.replicate k ')') = List.replicate k ')' := by
  induction k generalizing prev with
  | zero => rfl
  | succ k ih => exact congrArg (')' :: ·) (ih _)

/-- A closing parenthesis where an operand is due has no value. -/
private theorem Reads.not_evaluates_closing {b : List Char} {n : Nat} (h : Reads b (.operand n))
    (k : Nat) (x : Float) : evaluate (plain (b ++ List.replicate (k + 1) ')')) ≠ .ok x := by
  intro hx
  obtain ⟨ls, hls, hrun, -⟩ := h
  have hlexes : Lexes (plain (b ++ List.replicate (k + 1) ')'))
      (ls ++ List.replicate (k + 1) .closing) := by
    rw [Display.plain_append, plainAfter_closing]
    exact hls.append (lexes_closing (k + 1)) fun _ c hc ↦ by cases hc; rfl
  obtain ⟨ts, hts, heq⟩ := hlexes.exists_evaluate_eq
  have hshape := Expression.shape_of_evaluateTokens (heq ▸ hx)
  rw [hts, Shape.run_append, hrun] at hshape
  cases hshape

/-- A repair of a typed buffer that has a value can be typed. -/
theorem Typed.mend {b : List Char} (h : Typed b) (hne : mend b ≠ []) {x : Float}
    (hx : evaluate (plain (mend b)) = .ok x) : Typed (mend b) := by
  obtain ⟨-, p, n, h⟩ := h
  obtain ⟨q, m, hkept, heq⟩ := h.mend_eq
  refine ⟨hne, ?_⟩
  rw [heq] at hx ⊢
  by_cases hq : q = .operand
  · subst hq
    cases m with
    | zero => exact ⟨_, _, by simpa using hkept⟩
    | succ m => exact absurd hx (hkept.reads.not_evaluates_closing m x)
  · have hclosed : Viable (Diagnosis.dropTrailingOperator b) q (0 + m) := by rwa [Nat.zero_add]
    obtain ⟨r, hr, -⟩ := hclosed.append_closing hq
    exact ⟨r, 0, hr⟩

/-- A repair that is offered for a typed buffer can be typed. -/
theorem Typed.suggestion {b fixed : List Char} {e : Expression.CalcError} (h : Typed b)
    (hfixed : (diagnose b e).suggestion = some fixed) : Typed fixed := by
  obtain ⟨rfl, hne, x, hx⟩ := Diagnosis.mend_of_suggestion hfixed
  exact h.mend hne hx

end DeskCalculator.Buffer
