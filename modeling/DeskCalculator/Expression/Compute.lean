import DeskCalculator.Expression.Evaluate
import DeskCalculator.Text.Blank

/-!
# Calculating what the display shows

The display writes `×` and `÷`, puts a percent sign after a value, and allows a `+` before the
first operand and right after an opening parenthesis. `plain` turns that into the evaluator's
text, and `compute` evaluates it. A malformed expression with a percent sign that has no operand
before it is reported as a malformed percentage.

Specification: §4.1 and §7.
-/

namespace DeskCalculator.Expression

/-- The evaluator's text of a display text whose characters stand after `prev`. -/
def plainAfter (prev : Option Char) : List Char → List Char
  | [] => []
  | c :: cs =>
    let rest := plainAfter (some c) cs
    match c with
    | '×' => '*' :: rest
    | '÷' => '/' :: rest
    | '%' => '/' :: '1' :: '0' :: '0' :: rest
    | '+' => if prev.all (· == '(') then rest else '+' :: rest
    | c => c :: rest

/-- The evaluator's text of a display text. -/
def plain (cs : List Char) : List Char :=
  plainAfter none cs

/-- Whether a character is an operator, as the display or as the evaluator writes it. -/
def isOperatorChar (c : Char) : Bool :=
  c == '+' || c == '-' || c == '×' || c == '÷' || c == '*' || c == '/'

/-- Whether `c` is a percent sign without an operand, `prev` being the nearest character before it
that is not blank. -/
def isMisplacedPercent (prev : Option Char) (c : Char) : Bool :=
  c == '%' && prev.all fun p ↦ isOperatorChar p || p == '('

/-- The nearest character that is not blank once `c` has been read after `prev`. -/
def solidAfter (prev : Option Char) (c : Char) : Option Char :=
  if Text.isBlank c then prev else some c

/-- Whether characters that stand after `prev` hold a percent sign without an operand. -/
def hasMisplacedPercentAfter (prev : Option Char) : List Char → Bool
  | [] => false
  | c :: cs => isMisplacedPercent prev c || hasMisplacedPercentAfter (solidAfter prev c) cs

/-- Whether a text holds a percent sign without an operand before it. -/
def hasMisplacedPercent (cs : List Char) : Bool :=
  hasMisplacedPercentAfter none cs

/-- The error to report for an expression that the evaluator rejects. -/
def relabel (cs : List Char) (e : EvalError) : CalcError :=
  if e.isSyntax && hasMisplacedPercent cs then .malformedPercentage else .invalidExpression e

/-- The value of what the display shows. -/
def compute (cs : List Char) : Except CalcError Float :=
  (evaluate (plain cs)).mapError (relabel cs)

end DeskCalculator.Expression
