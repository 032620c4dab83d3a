/-!
# Why an expression has no value

`EvalError` is the evaluator's verdict; its positions count the characters of the evaluated text
from zero. `CalcError` is what the user is told.

Specification: §7 and §E2.
-/

namespace DeskCalculator.Expression

/-- Why the evaluator rejects a text. -/
inductive EvalError where
  /-- There is nothing but blanks. -/
  | empty
  /-- The text ends where an operand or a closing parenthesis is missing. -/
  | unexpectedEnd
  /-- A token stands where none of its kind can. -/
  | unexpectedToken (found : Char) (pos : Nat)
  /-- A character belongs to no token. -/
  | unknownSymbol (symbol : Char) (pos : Nat)
  /-- A run of digits and points is no number. -/
  | invalidNumber (literal : List Char) (pos : Nat)
  /-- A result is infinite or no number. -/
  | nonFinite
  deriving Repr, DecidableEq

namespace EvalError

/-- Whether the text is malformed, as opposed to well-formed without a finite value. -/
def isSyntax : EvalError → Bool
  | nonFinite => false
  | _ => true

/-- The wording of the verdict. -/
def message : EvalError → String
  | empty => "empty expression"
  | unexpectedEnd => "unexpected end of expression"
  | unexpectedToken found pos => "unexpected '" ++ String.singleton found ++ "' at position " ++ pos.repr
  | unknownSymbol symbol pos =>
    "unknown symbol '" ++ String.singleton symbol ++ "' at position " ++ pos.repr
  | invalidNumber literal pos =>
    "invalid number '" ++ String.ofList literal ++ "' at position " ++ pos.repr
  | nonFinite => "result is not a finite number"

end EvalError

/-- Why a calculation fails. -/
inductive CalcError where
  /-- The evaluator rejects the expression. -/
  | invalidExpression (cause : EvalError)
  /-- The expression is malformed and holds a percent sign with no operand before it. -/
  | malformedPercentage
  deriving Repr, DecidableEq

namespace CalcError

/-- The text of the error banner. -/
def message : CalcError → String
  | invalidExpression cause => "Invalid expression: " ++ cause.message
  | malformedPercentage =>
    "Malformed percentage: '%' must follow a number or a closing parenthesis"

end CalcError

end DeskCalculator.Expression
