import DeskCalculator.Proofs.Expression.Tree

/-!
# Derivations of the display grammar

```text
sentence := '+'? expr
expr     := term (('+' | '-') term)*
term     := unary (('×' | '*' | '÷' | '/') unary | '%')*
unary    := '-' unary | primary
primary  := number | '(' '+'? expr ')'
```

The display grammar is the evaluator's with two additions. A percent sign is a step of a term that
divides what the term has come to by 100, and one plus sign that means nothing can stand before the
whole expression and before the expression in a pair of parentheses. `plain` takes a derivation to
one of the evaluator's grammar and `Lexeme.expand` does so for what it derives.
-/

namespace DeskCalculator.Display

open Expression (AddOp MulOp EvalError finite)

/-- What stands on the display: a lexeme of the evaluator, a percent sign, or a plus sign at the
beginning of an expression. -/
inductive Lexeme where
  | plain (l : Expression.Lexeme)
  | percent
  | leadingPlus
  deriving DecidableEq

mutual

/-- A derivation from `expr`. -/
inductive Expr where
  | term (t : Term)
  | add (e : Expr) (op : AddOp) (t : Term)

/-- A derivation from `term`. -/
inductive Term where
  | unary (u : Unary)
  | mul (t : Term) (op : MulOp) (u : Unary)
  | percent (t : Term)

/-- A derivation from `unary`. -/
inductive Unary where
  | negate (u : Unary)
  | primary (p : Primary)

/-- A derivation from `primary`; `plus` says whether a plus sign stands at the beginning of the
parentheses. -/
inductive Primary where
  | number (x : Float)
  | group (plus : Bool) (e : Expr)

end

/-- A derivation from `sentence`; `plus` says whether a plus sign stands at its beginning. -/
structure Sentence where
  plus : Bool
  expr : Expr

/-- The plus sign at the beginning of an expression, if there is one. -/
def plusLexemes (plus : Bool) : List Lexeme :=
  if plus then [.leadingPlus] else []

mutual

/-- What a tree derives. -/
def Expr.lexemes : Expr → List Lexeme
  | .term t => t.lexemes
  | .add e op t => e.lexemes ++ .plain (.add op) :: t.lexemes

/-- What a tree derives. -/
def Term.lexemes : Term → List Lexeme
  | .unary u => u.lexemes
  | .mul t op u => t.lexemes ++ .plain (.mul op) :: u.lexemes
  | .percent t => t.lexemes ++ [.percent]

/-- What a tree derives. -/
def Unary.lexemes : Unary → List Lexeme
  | .negate u => .plain (.add .minus) :: u.lexemes
  | .primary p => p.lexemes

/-- What a tree derives. -/
def Primary.lexemes : Primary → List Lexeme
  | .number x => [.plain (.number x)]
  | .group plus e => .plain .opening :: (plusLexemes plus ++ e.lexemes) ++ [.plain .closing]

end

/-- What a sentence derives. -/
def Sentence.lexemes (s : Sentence) : List Lexeme :=
  plusLexemes s.plus ++ s.expr.lexemes

mutual

/-- What a tree means: every binary operation and every percent sign must give a finite number. -/
def Expr.value : Expr → Except EvalError Float
  | .term t => t.value
  | .add e op t => do
    let a ← e.value
    let b ← t.value
    let result := match op with
      | .plus => a + b
      | .minus => a - b
    if result.isFinite then .ok result else .error .nonFinite

/-- What a tree means. -/
def Term.value : Term → Except EvalError Float
  | .unary u => u.value
  | .mul t op u => do
    let a ← t.value
    let b ← u.value
    let result := match op with
      | .times => a * b
      | .divide => a / b
    if result.isFinite then .ok result else .error .nonFinite
  | .percent t => do
    let a ← t.value
    let result := a / 100
    if result.isFinite then .ok result else .error .nonFinite

/-- What a tree means. -/
def Unary.value : Unary → Except EvalError Float
  | .negate u => do return -(← u.value)
  | .primary p => p.value

/-- What a tree means. -/
def Primary.value : Primary → Except EvalError Float
  | .number x => .ok x
  | .group _ e => e.value

end

/-- What a sentence means. -/
def Sentence.value (s : Sentence) : Except EvalError Float :=
  s.expr.value

/-- The evaluator adds and subtracts as a tree means it. -/
theorem Expr.value_add (e : Expr) (op : AddOp) (t : Term) :
    (Expr.add e op t).value = (do finite (op.apply (← e.value) (← t.value))) := by
  rw [Expr.value]
  cases op <;> rfl

/-- The evaluator multiplies and divides as a tree means it. -/
theorem Term.value_mul (t : Term) (op : MulOp) (u : Unary) :
    (Term.mul t op u).value = (do finite (op.apply (← t.value) (← u.value))) := by
  rw [Term.value]
  cases op <;> rfl

/-- What stands in the evaluator's text for what stands on the display. -/
def Lexeme.expand : Lexeme → List Expression.Lexeme
  | plain l => [l]
  | percent => [.mul .divide, .number 100]
  | leadingPlus => []

mutual

/-- The same expression in the evaluator's grammar. -/
def Expr.plain : Expr → Expression.Expr
  | .term t => .term t.plain
  | .add e op t => .add e.plain op t.plain

/-- The same term in the evaluator's grammar. -/
def Term.plain : Term → Expression.Term
  | .unary u => .unary u.plain
  | .mul t op u => .mul t.plain op u.plain
  | .percent t => .mul t.plain .divide (.primary (.number 100))

/-- The same operand in the evaluator's grammar. -/
def Unary.plain : Unary → Expression.Unary
  | .negate u => .negate u.plain
  | .primary p => .primary p.plain

/-- The same operand in the evaluator's grammar. -/
def Primary.plain : Primary → Expression.Primary
  | .number x => .number x
  | .group _ e => .group e.plain

end

/-- A plus sign at the beginning stands for nothing. -/
@[simp] theorem flatMap_expand_plusLexemes (plus : Bool) :
    (plusLexemes plus).flatMap Lexeme.expand = [] := by
  cases plus <;> rfl

mutual

/-- The evaluator's derivation derives the evaluator's text. -/
theorem Expr.lexemes_plain (e : Expr) : e.plain.lexemes = e.lexemes.flatMap Lexeme.expand := by
  cases e with
  | term t =>
    rw [Expr.plain, Expression.Expr.lexemes, Expr.lexemes]
    exact t.lexemes_plain
  | add e op t =>
    rw [Expr.plain, Expression.Expr.lexemes, Expr.lexemes, List.flatMap_append, e.lexemes_plain,
      t.lexemes_plain]
    rfl

/-- The evaluator's derivation derives the evaluator's text. -/
theorem Term.lexemes_plain (t : Term) : t.plain.lexemes = t.lexemes.flatMap Lexeme.expand := by
  cases t with
  | unary u =>
    rw [Term.plain, Expression.Term.lexemes, Term.lexemes]
    exact u.lexemes_plain
  | mul t op u =>
    rw [Term.plain, Expression.Term.lexemes, Term.lexemes, List.flatMap_append, t.lexemes_plain,
      u.lexemes_plain]
    rfl
  | percent t =>
    rw [Term.plain, Expression.Term.lexemes, Term.lexemes, List.flatMap_append, t.lexemes_plain]
    rfl

/-- The evaluator's derivation derives the evaluator's text. -/
theorem Unary.lexemes_plain (u : Unary) : u.plain.lexemes = u.lexemes.flatMap Lexeme.expand := by
  cases u with
  | negate u =>
    rw [Unary.plain, Expression.Unary.lexemes, Unary.lexemes, u.lexemes_plain]
    rfl
  | primary p =>
    rw [Unary.plain, Expression.Unary.lexemes, Unary.lexemes]
    exact p.lexemes_plain

/-- The evaluator's derivation derives the evaluator's text. -/
theorem Primary.lexemes_plain (p : Primary) :
    p.plain.lexemes = p.lexemes.flatMap Lexeme.expand := by
  cases p with
  | number x => rfl
  | group plus e =>
    rw [Primary.plain, Expression.Primary.lexemes, Primary.lexemes, e.lexemes_plain,
      List.flatMap_append, List.flatMap_cons, List.flatMap_append, flatMap_expand_plusLexemes,
      List.nil_append]
    rfl

end

mutual

/-- A derivation and the evaluator's derivation mean the same. -/
theorem Expr.value_plain (e : Expr) : e.plain.value = e.value := by
  cases e with
  | term t => exact t.value_plain
  | add e op t =>
    rw [Expr.plain, Expression.Expr.value_add, Expr.value_add, e.value_plain, t.value_plain]

/-- A derivation and the evaluator's derivation mean the same. -/
theorem Term.value_plain (t : Term) : t.plain.value = t.value := by
  cases t with
  | unary u => exact u.value_plain
  | mul t op u =>
    rw [Term.plain, Expression.Term.value_mul, Term.value_mul, t.value_plain, u.value_plain]
  | percent t =>
    rw [Term.plain, Expression.Term.value, Term.value, t.value_plain]
    rfl

/-- A derivation and the evaluator's derivation mean the same. -/
theorem Unary.value_plain (u : Unary) : u.plain.value = u.value := by
  cases u with
  | negate u => rw [Unary.plain, Expression.Unary.value, Unary.value, u.value_plain]
  | primary p => exact p.value_plain

/-- A derivation and the evaluator's derivation mean the same. -/
theorem Primary.value_plain (p : Primary) : p.plain.value = p.value := by
  cases p with
  | number x => rfl
  | group plus e => exact e.value_plain

end

end DeskCalculator.Display
