import DeskCalculator.Expression.Token

/-!
# Evaluating an expression

```text
expr    := term (('+' | '-') term)*
term    := unary (('*' | '/') unary)*
unary   := '-' unary | primary
primary := number | '(' expr ')'
```

The tokens are read once from left to right. What is still open stands in a `State`: for each open
parenthesis and for the whole text one `Pending` with the values that wait for an operand. An
operand is used as soon as it is complete, so an operation that gives no finite number stops the
reading there, before any later fault of the text.

Specification: §4.2.
-/

namespace DeskCalculator.Expression

/-- A number that can be shown, or the error that says it cannot. -/
def finite (x : Float) : Except EvalError Float :=
  if x.isFinite then .ok x else .error .nonFinite

/-- The sum or difference of two numbers. -/
def AddOp.apply : AddOp → Float → Float → Float
  | plus, a, b => a + b
  | minus, a, b => a - b

/-- The product or quotient of two numbers. -/
def MulOp.apply : MulOp → Float → Float → Float
  | times, a, b => a * b
  | divide, a, b => a / b

/-- What one level of parentheses has read before its next operand. -/
structure Pending where
  /-- The terms so far and the operator after them. -/
  sum : Option (Float × AddOp) := none
  /-- The factors of the open term so far and the operator after them. -/
  product : Option (Float × MulOp) := none
  /-- The minus signs that stand directly before the operand. -/
  negations : Nat := 0

/-- What one level of parentheses has read after an operand. -/
structure Level where
  /-- The terms before the open one and the operator after them. -/
  sum : Option (Float × AddOp) := none
  /-- The value of the open term so far. -/
  term : Float

/-- Uses a complete operand: its minus signs first, then the open product. -/
def Pending.supply (p : Pending) (x : Float) : Except EvalError Level :=
  let operand := p.negations.repeat Neg.neg x
  match p.product with
  | none => .ok ⟨p.sum, operand⟩
  | some (a, op) => return ⟨p.sum, ← finite (op.apply a operand)⟩

/-- The value of a level whose last term is complete. -/
def Level.total (d : Level) : Except EvalError Float :=
  match d.sum with
  | none => .ok d.term
  | some (a, op) => finite (op.apply a d.term)

/-- Where the reading stands. `outer` holds the levels around the innermost open parenthesis,
innermost first. -/
inductive State where
  /-- An operand must follow. -/
  | operand (pending : Pending) (outer : List Pending)
  /-- An operand has been read. -/
  | operator (level : Level) (outer : List Pending)

namespace State

/-- Nothing has been read. -/
def start : State :=
  operand {} []

/-- Reads one token. -/
def step (s : State) (t : Token) : Except EvalError State :=
  match s, t.lexeme with
  | operand p outer, .number x => return operator (← p.supply x) outer
  | operand p outer, .add .minus => .ok (operand { p with negations := p.negations + 1 } outer)
  | operand p outer, .opening => .ok (operand {} (p :: outer))
  | operand _ _, l => .error (.unexpectedToken l.glyph t.pos)
  | operator d outer, .mul op => .ok (operand { sum := d.sum, product := some (d.term, op) } outer)
  | operator d outer, .add op => return operand { sum := some (← d.total, op) } outer
  | operator d (p :: outer), .closing => return operator (← p.supply (← d.total)) outer
  | operator d _, l => do
    let _ ← d.total
    .error (.unexpectedToken l.glyph t.pos)

/-- The value when no token follows. -/
def finish : State → Except EvalError Float
  | operand _ _ => .error .unexpectedEnd
  | operator d outer => do
    let x ← d.total
    if outer.isEmpty then finite x else .error .unexpectedEnd

/-- Reads tokens in order. -/
def run (s : State) : List Token → Except EvalError State
  | [] => .ok s
  | t :: ts => do (← s.step t).run ts

end State

/-- The value of a sequence of tokens. -/
def evaluateTokens (ts : List Token) : Except EvalError Float :=
  if ts.isEmpty then .error .empty else do (← State.start.run ts).finish

/-- The value of a text. -/
def evaluate (cs : List Char) : Except EvalError Float := do
  evaluateTokens (← tokenize cs)

/-- Reading one part of the tokens after the other is reading them all. -/
theorem State.run_append (s : State) (ts us : List Token) :
    s.run (ts ++ us) = s.run ts >>= fun s' ↦ s'.run us := by
  induction ts generalizing s with
  | nil => rfl
  | cons t ts ih =>
    simp only [List.cons_append, run]
    cases s.step t with
    | error e => rfl
    | ok s' => exact ih s'

end DeskCalculator.Expression
