import DeskCalculator.Expression.Compute

/-!
# What is wrong with an expression

Each problem is a pattern that begins at some character of the text. `Problem.width` looks at the
characters before a place, nearest first, and those from it on, and says how many characters the
problem covers if it begins there. The first place with a problem splits the text in three.

Specification: §4.4.
-/

namespace DeskCalculator.Diagnosis

open Expression (isLiteralChar isOperatorChar isMisplacedPercent readNumeral?)
open Text (isBlank)

/-- A text split around a span of it. -/
structure Split where
  before : List Char
  span : List Char
  after : List Char
  deriving Repr, DecidableEq

/-- The kinds of problems. -/
inductive Problem where
  | unknownSymbol
  | misplacedPercent
  | invalidNumber
  | strayOperator
  | missingOperator
  | unmatchedClose
  | emptyParens
  | trailingOperator
  | unclosedParen
  | divisionByZero
  deriving Repr, DecidableEq

/-- The first place of `rest` where `width` finds a span; `seen` holds what stands before `rest`,
nearest character first. -/
def firstSplit (width : List Char → List Char → Option Nat) :
    (seen rest : List Char) → Option Split
  | _, [] => none
  | seen, c :: rest =>
    match width seen (c :: rest) with
    | some n => some ⟨seen.reverse, (c :: rest).take n, (c :: rest).drop n⟩
    | none => firstSplit width (c :: seen) rest

/-- A span is cut out of the text and nothing else changes. -/
theorem firstSplit_append {width : List Char → List Char → Option Nat} {seen rest : List Char}
    {s : Split} (h : firstSplit width seen rest = some s) :
    s.before ++ s.span ++ s.after = seen.reverse ++ rest := by
  induction rest generalizing seen with
  | nil => simp [firstSplit] at h
  | cons c rest ih =>
    unfold firstSplit at h
    split at h
    · obtain rfl := Option.some.inj h
      simp only [List.append_assoc, List.take_append_drop]
    · simpa using ih h

/-- Whether a character can stand in an expression. -/
def isKnown (c : Char) : Bool :=
  isLiteralChar c || isOperatorChar c || c == '%' || c == '(' || c == ')' || isBlank c

/-- Whether an operator joins factors, so that nothing but an operand can stand before it. -/
def isFactorOperator (c : Char) : Bool :=
  c == '×' || c == '÷' || c == '*' || c == '/'

/-- Whether a character ends a value. -/
def endsValue (c : Char) : Bool :=
  isLiteralChar c || c == ')' || c == '%'

/-- The nearest of some characters that is not blank. -/
def solid? (cs : List Char) : Option Char :=
  cs.find? fun c ↦ !isBlank c

/-- The width from a character to the next one that is not blank, both counted. -/
def pairWidth (rest : List Char) : Nat :=
  (rest.takeWhile isBlank).length + 2

/-- Whether every parenthesis of a text has its partner, `depth` of them being open before it. -/
def balancedFrom : (depth : Nat) → List Char → Bool
  | depth, [] => depth == 0
  | depth, c :: cs =>
    if c == '(' then balancedFrom (depth + 1) cs
    else if c == ')' then depth != 0 && balancedFrom (depth - 1) cs
    else balancedFrom depth cs

/-- How many parentheses are open after a text, `depth` of them being open before it. A closing one
without a partner is passed over. -/
def openAfter (depth : Nat) (cs : List Char) : Nat :=
  cs.foldl (fun d c ↦ if c == '(' then d + 1 else if c == ')' then d - 1 else d) depth

/-- The number literal that begins a text. -/
def leadingRun (cs : List Char) : List Char :=
  cs.takeWhile isLiteralChar

namespace Problem

/-- How many characters the problem covers when it begins at `c`, with `seen` before it and `rest`
after it. -/
def widthAt (seen : List Char) (c : Char) (rest : List Char) : Problem → Option Nat
  | unknownSymbol => if isKnown c then none else some 1
  | misplacedPercent => if isMisplacedPercent (solid? seen) c then some 1 else none
  | invalidNumber =>
    let run := leadingRun (c :: rest)
    if run.isEmpty || seen.head?.any isLiteralChar || (readNumeral? run).isSome then none
    else some run.length
  | strayOperator =>
    if isFactorOperator c && (solid? seen).all (· == '(') then some 1
    else if isOperatorChar c && (solid? rest).any (fun d ↦ isOperatorChar d && d != '-') then
      some (pairWidth rest)
    else none
  | missingOperator =>
    if (solid? rest).any fun d ↦ endsValue c && d == '(' || c == ')' && isLiteralChar d then
      some (pairWidth rest)
    else none
  | unmatchedClose => if c == ')' && seen.count '(' ≤ seen.count ')' then some 1 else none
  | emptyParens => if c == '(' && (solid? rest).any (· == ')') then some (pairWidth rest) else none
  | trailingOperator => if isOperatorChar c && rest.all isBlank then some 1 else none
  | unclosedParen => if c == '(' && balancedFrom 0 rest then some 1 else none
  | divisionByZero =>
    let gap := rest.takeWhile isBlank
    let run := leadingRun (rest.drop gap.length)
    if (c == '÷' || c == '/') && (readNumeral? run).any (· == 0) then
      some (1 + gap.length + run.length)
    else none

/-- How many characters the problem covers when it begins where `rest` does. -/
def width (p : Problem) (seen : List Char) : List Char → Option Nat
  | [] => none
  | c :: rest => p.widthAt seen c rest

/-- The first place of an expression with the problem. -/
def find (p : Problem) (cs : List Char) : Option Split :=
  firstSplit p.width [] cs

/-- What the user is told about the problem. -/
def hint : Problem → String
  | unknownSymbol => "The expression contains a symbol the calculator does not understand."
  | misplacedPercent => "A percent sign needs a number before it."
  | invalidNumber => "This number is not written correctly."
  | strayOperator => "Two operators cannot appear here together."
  | missingOperator => "An operator is missing between these values."
  | unmatchedClose => "This closing parenthesis has no matching opening one."
  | emptyParens => "Parentheses cannot be empty."
  | trailingOperator => "The expression ends with an operator."
  | unclosedParen => "A parenthesis was opened but never closed."
  | divisionByZero => "Division by zero is undefined."

/-- All problems, in the order in which they are looked for. -/
def inOrder : List Problem :=
  [unknownSymbol, misplacedPercent, invalidNumber, strayOperator, missingOperator, unmatchedClose,
    emptyParens, trailingOperator, unclosedParen, divisionByZero]

end Problem

end DeskCalculator.Diagnosis
