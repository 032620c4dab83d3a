import DeskCalculator.Proofs.Display.Lexing
import DeskCalculator.Proofs.Expression.Acceptance

/-!
# Numbers alone on the display

A number that stands alone, perhaps after a minus sign, is an expression. It has the number's value
with that sign, unless the number is too large for a double.
-/

namespace DeskCalculator.Display

open Expression (compute finite isLiteralChar numeralValue plain)
open Number (signText)

variable {run : List Char}

/-- A number with a sign has a derivation, whose value is the number's with that sign. -/
private theorem exists_derivation_signText (hrun : ∀ c ∈ run, isLiteralChar c)
    (hdigit : ∃ c ∈ run, c.isDigit) (hpoint : run.count '.' ≤ 1) (negative : Bool) :
    ∃ e : Expression.Expr, Expression.Lexes (signText negative ++ run) e.lexemes ∧
      e.value = .ok (if negative then -numeralValue run else numeralValue run) := by
  have hlexes : Expression.Lexes (run ++ []) [.number (numeralValue run)] :=
    .number hrun hdigit hpoint (fun c hc ↦ by cases hc) .nil
  rw [List.append_nil] at hlexes
  cases negative with
  | false => exact ⟨.term (.unary (.primary (.number (numeralValue run)))), hlexes, rfl⟩
  | true =>
    exact ⟨.term (.unary (.negate (.primary (.number (numeralValue run))))), .symbol rfl hlexes,
      rfl⟩

/-- A number with a sign stands for itself in the evaluator's text. -/
private theorem plain_signText (hne : run ≠ []) (hrun : ∀ c ∈ run, isLiteralChar c)
    (negative : Bool) : plain (signText negative ++ run) = signText negative ++ run := by
  cases negative with
  | false => exact plainAfter_run hne hrun none
  | true => exact congrArg ('-' :: ·) (plainAfter_run hne hrun (some '-'))

/-- A number with a sign has the number's value with that sign, if that is finite. -/
theorem compute_signText (hrun : ∀ c ∈ run, isLiteralChar c) (hdigit : ∃ c ∈ run, c.isDigit)
    (hpoint : run.count '.' ≤ 1) (negative : Bool) :
    compute (signText negative ++ run) =
      (finite (if negative then -numeralValue run else numeralValue run)).mapError
        .invalidExpression := by
  have hne : run ≠ [] := by
    obtain ⟨c, hc, -⟩ := hdigit
    exact List.ne_nil_of_mem hc
  obtain ⟨e, hlexes, hvalue⟩ := exists_derivation_signText hrun hdigit hpoint negative
  rw [compute, plain_signText hne hrun, hlexes.evaluate_eq, hvalue]
  generalize (if negative then -numeralValue run else numeralValue run) = x
  change (finite x).mapError _ = _
  rcases Expression.finite_cases x with hfinite | hinfinite
  · rw [hfinite]
    rfl
  · rw [hinfinite]
    rfl

end DeskCalculator.Display
