import DeskCalculator.Expression.Evaluate

/-!
# Derivations of the evaluator's grammar

```text
expr    := term (('+' | '-') term)*
term    := unary (('*' | '/') unary)*
unary   := '-' unary | primary
primary := number | '(' expr ')'
```

A derivation is a tree. The repetitions are split at their last member, so a tree groups its
operators from left to right. `lexemes` is what a tree derives, and `value` is what it means in the
arithmetic of doubles: every binary operation must give a finite number.
-/

namespace DeskCalculator.Expression

mutual

/-- A derivation from `expr`. -/
inductive Expr where
  | term (t : Term)
  | add (e : Expr) (op : AddOp) (t : Term)

/-- A derivation from `term`. -/
inductive Term where
  | unary (u : Unary)
  | mul (t : Term) (op : MulOp) (u : Unary)

/-- A derivation from `unary`. -/
inductive Unary where
  | negate (u : Unary)
  | primary (p : Primary)

/-- A derivation from `primary`. -/
inductive Primary where
  | number (x : Float)
  | group (e : Expr)

end

mutual

/-- What a tree derives. -/
def Expr.lexemes : Expr → List Lexeme
  | .term t => t.lexemes
  | .add e op t => e.lexemes ++ .add op :: t.lexemes

/-- What a tree derives. -/
def Term.lexemes : Term → List Lexeme
  | .unary u => u.lexemes
  | .mul t op u => t.lexemes ++ .mul op :: u.lexemes

/-- What a tree derives. -/
def Unary.lexemes : Unary → List Lexeme
  | .negate u => .add .minus :: u.lexemes
  | .primary p => p.lexemes

/-- What a tree derives. -/
def Primary.lexemes : Primary → List Lexeme
  | .number x => [.number x]
  | .group e => .opening :: e.lexemes ++ [.closing]

end

mutual

/-- What a tree means. -/
def Expr.value : Expr → Except EvalError Float
  | .term t => t.value
  | .add e op t => do
    let a ← e.value
    let b ← t.value
    let result := match op with
      | .plus => a + b
      | .minus => a - b
    if result.isFinite then .ok result else .error .nonFinite

/-- What a tree means. -/
def Term.value : Term → Except EvalError Float
  | .unary u => u.value
  | .mul t op u => do
    let a ← t.value
    let b ← u.value
    let result := match op with
      | .times => a * b
      | .divide => a / b
    if result.isFinite then .ok result else .error .nonFinite

/-- What a tree means. -/
def Unary.value : Unary → Except EvalError Float
  | .negate u => do return -(← u.value)
  | .primary p => p.value

/-- What a tree means. -/
def Primary.value : Primary → Except EvalError Float
  | .number x => .ok x
  | .group e => e.value

end

/-- The evaluator adds and subtracts as a tree means it. -/
theorem Expr.value_add (e : Expr) (op : AddOp) (t : Term) :
    (Expr.add e op t).value = (do finite (op.apply (← e.value) (← t.value))) := by
  rw [Expr.value]
  cases op <;> rfl

/-- The evaluator multiplies and divides as a tree means it. -/
theorem Term.value_mul (t : Term) (op : MulOp) (u : Unary) :
    (Term.mul t op u).value = (do finite (op.apply (← t.value) (← u.value))) := by
  rw [Term.value]
  cases op <;> rfl

/-- A finite number passes, and nothing else does. -/
theorem finite_eq_ok_iff {x y : Float} : finite x = .ok y ↔ x.isFinite ∧ x = y := by
  unfold finite
  split
  · next h => simp [h]
  · next h => simp [h]

end DeskCalculator.Expression
