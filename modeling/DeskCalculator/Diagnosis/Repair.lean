import DeskCalculator.Diagnosis.Problem

/-!
# Repairs

A repair drops the percent signs that have no operand, drops one operator at the end and closes the
parentheses that are still open. It is offered only if something was done and the repaired
expression has a value. An expression with an unmatched closing parenthesis has no repair.

Specification: §4.4.
-/

namespace DeskCalculator.Diagnosis

open Expression (isOperatorChar isMisplacedPercent solidAfter hasMisplacedPercent)

/-- One thing that a repair does. -/
inductive Step where
  | dropPercents
  | dropOperator
  | closeParens (count : Nat)
  deriving Repr, DecidableEq

/-- What the user is told that a repair does. -/
def Step.text : Step → String
  | dropPercents => "remove the misplaced percent sign"
  | dropOperator => "remove the trailing operator"
  | closeParens 1 => "close 1 parenthesis"
  | closeParens count => "close " ++ count.repr ++ " parentheses"

/-- Characters that stand after `prev` without the percent signs that have no operand. -/
def dropPercentsAfter (prev : Option Char) : List Char → List Char
  | [] => []
  | c :: cs =>
    let rest := dropPercentsAfter (solidAfter prev c) cs
    if isMisplacedPercent prev c then rest else c :: rest

/-- A text without its last character if that is an operator. -/
def dropTrailingOperator (cs : List Char) : List Char :=
  if cs.getLast?.any isOperatorChar then cs.dropLast else cs

/-- The repaired text, whether or not it has a value. -/
def mend (cs : List Char) : List Char :=
  let kept := dropTrailingOperator (Text.trimRight (dropPercentsAfter none cs))
  kept ++ List.replicate (openAfter 0 kept) ')'

/-- What `mend` does, in order. -/
def mendSteps (cs : List Char) : List Step :=
  let solid := Text.trimRight (dropPercentsAfter none cs)
  let missing := openAfter 0 (dropTrailingOperator solid)
  (if hasMisplacedPercent cs then [.dropPercents] else []) ++
    (if solid.getLast?.any isOperatorChar then [.dropOperator] else []) ++
    (if missing = 0 then [] else [.closeParens missing])

/-- The repaired expression and what was done, if the repair can be offered. -/
def repair? (cs : List Char) : Option (List Char × List Step) :=
  if (Problem.unmatchedClose.find cs).isSome then none
  else if (mendSteps cs).isEmpty || (mend cs).isEmpty then none
  else
    match Expression.evaluate (Expression.plain (mend cs)) with
    | .ok _ => some (mend cs, mendSteps cs)
    | .error _ => none

/-- A text with its first letter raised, if that is a small ASCII letter. -/
def capitalize (text : String) : String :=
  match text.toList with
  | [] => ""
  | c :: cs => String.ofList (c.toUpper :: cs)

/-- The sentence that says what a repair does. -/
def stepsText (steps : List Step) : String :=
  capitalize (" and ".intercalate (steps.map Step.text)) ++ "."

end DeskCalculator.Diagnosis
