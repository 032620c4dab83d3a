import DeskCalculator.Expression.Evaluate

/-!
# Which sequences of lexemes can go on

Without its numbers, the state of an evaluation is a `Shape`: whether an operand or an operator is
due, and how many parentheses are open. The shape alone decides which lexemes can come next. An
evaluation that has not failed has the shape that its lexemes lead to, and a lexeme that the shape
admits can fail only by a result that is not finite.
-/

namespace DeskCalculator.Expression

/-- What is due after a sequence of lexemes, inside how many parentheses. -/
inductive Shape where
  | operand (depth : Nat)
  | operator (depth : Nat)
  deriving Repr, DecidableEq

namespace Shape

/-- The shape after one more lexeme, if it can stand there. -/
def step : Shape → Lexeme → Option Shape
  | operand n, .number _ => some (operator n)
  | operand n, .add .minus => some (operand n)
  | operand n, .opening => some (operand (n + 1))
  | operator n, .mul _ => some (operand n)
  | operator n, .add _ => some (operand n)
  | operator (n + 1), .closing => some (operator n)
  | _, _ => none

/-- The shape after a sequence of lexemes, if they can stand there. -/
def run (s : Shape) : List Lexeme → Option Shape
  | [] => some s
  | l :: ls => s.step l >>= fun s' ↦ s'.run ls

/-- Reading one part of a sequence after the other is reading all of it. -/
theorem run_append (s : Shape) (ls ms : List Lexeme) :
    s.run (ls ++ ms) = s.run ls >>= fun s' ↦ s'.run ms := by
  induction ls generalizing s with
  | nil => rfl
  | cons l ls ih =>
    rw [List.cons_append, run, run]
    cases s.step l with
    | none => rfl
    | some s' => exact ih s'

end Shape

/-- An evaluation without its numbers. -/
def State.shape : State → Shape
  | .operand _ outer => .operand outer.length
  | .operator _ outer => .operator outer.length

/-- A computation after one that has succeeded. -/
@[simp] theorem ok_bind {α β : Type} (a : α) (f : α → Except EvalError β) :
    Except.ok a >>= f = f a :=
  rfl

/-- A computation after one that has failed. -/
@[simp] theorem error_bind {α β : Type} (e : EvalError) (f : α → Except EvalError β) :
    Except.error e >>= f = .error e :=
  rfl

namespace State

variable (p : Pending) (d : Level) (outer : List Pending) (pos : Nat)

/-- A number is supplied to what waits for an operand. -/
theorem step_number (x : Float) :
    (operand p outer).step ⟨.number x, pos⟩ = p.supply x >>= fun d ↦ .ok (operator d outer) :=
  rfl

/-- A minus sign before an operand waits for it. -/
theorem step_negation :
    (operand p outer).step ⟨.add .minus, pos⟩ =
      .ok (operand { p with negations := p.negations + 1 } outer) :=
  rfl

/-- An opening parenthesis begins a level. -/
theorem step_opening : (operand p outer).step ⟨.opening, pos⟩ = .ok (operand {} (p :: outer)) :=
  rfl

/-- A factor operator leaves the term open. -/
theorem step_mul (op : MulOp) :
    (operator d outer).step ⟨.mul op, pos⟩ =
      .ok (operand { sum := d.sum, product := some (d.term, op) } outer) :=
  rfl

/-- A term operator completes the term. -/
theorem step_add (op : AddOp) :
    (operator d outer).step ⟨.add op, pos⟩ =
      d.total >>= fun x ↦ .ok (operand { sum := some (x, op) } outer) :=
  rfl

/-- A closing parenthesis supplies the total of its level to the level around it. -/
theorem step_closing :
    (operator d (p :: outer)).step ⟨.closing, pos⟩ =
      d.total >>= fun x ↦ p.supply x >>= fun d' ↦ .ok (operator d' outer) :=
  rfl

end State

/-- The only error of `finite` is that the number is not finite. -/
theorem finite_cases (x : Float) : finite x = .ok x ∨ finite x = .error .nonFinite := by
  unfold finite
  split
  · exact .inl rfl
  · exact .inr rfl

/-- An operand can fail only by a product that is not finite. -/
theorem Pending.supply_cases (p : Pending) (x : Float) :
    (∃ d, p.supply x = .ok d) ∨ p.supply x = .error .nonFinite := by
  unfold Pending.supply
  cases p.product with
  | none => exact .inl ⟨_, rfl⟩
  | some m =>
    rcases finite_cases (m.2.apply m.1 (p.negations.repeat Neg.neg x)) with h | h
    · exact .inl ⟨_, by simp only [h, ok_bind]; rfl⟩
    · exact .inr (by simp only [h, error_bind])

/-- One more minus sign changes the sign of the operand. -/
theorem Pending.supply_negations_succ (p : Pending) (x : Float) :
    ({ p with negations := p.negations + 1 } : Pending).supply x = p.supply (-x) := by
  have h (n : Nat) : (n + 1).repeat Neg.neg x = n.repeat Neg.neg (-x) := by
    induction n with
    | zero => rfl
    | succ n ih => rw [Nat.repeat, ih, Nat.repeat]
  rcases p with ⟨sum, product, n⟩
  simp only [Pending.supply, h]

/-- A sum can fail only by not being finite. -/
theorem Level.total_cases (d : Level) :
    (∃ x, d.total = .ok x) ∨ d.total = .error .nonFinite := by
  unfold Level.total
  cases d.sum with
  | none => exact .inl ⟨_, rfl⟩
  | some m =>
    rcases finite_cases (m.2.apply m.1 d.term) with h | h
    · exact .inl ⟨_, h⟩
    · exact .inr h

/-- What a step of an evaluation can do. -/
inductive State.StepOutcome (s : State) (t : Token) : Prop where
  /-- It goes on in the shape that the lexeme leads to. -/
  | goesOn {s' : State} (hs : s.step t = .ok s') (shape : s.shape.step t.lexeme = some s'.shape)
  /-- A result is not finite. -/
  | nonFinite (hs : s.step t = .error .nonFinite)
  /-- The token is unexpected, and the shape does not admit its lexeme. -/
  | unexpected (hs : s.step t = .error (.unexpectedToken t.lexeme.glyph t.pos))
      (shape : s.shape.step t.lexeme = none)

private theorem stepOutcome_operand (p : Pending) (outer : List Pending) (t : Token) :
    (State.operand p outer).StepOutcome t := by
  rcases t with ⟨l, pos⟩
  cases l with
  | number x =>
    rcases p.supply_cases x with ⟨d, hd⟩ | hd
    · exact .goesOn (by rw [State.step_number, hd, ok_bind]) rfl
    · exact .nonFinite (by rw [State.step_number, hd, error_bind])
  | add op =>
    cases op with
    | plus => exact .unexpected rfl rfl
    | minus => exact .goesOn rfl rfl
  | mul op => exact .unexpected rfl rfl
  | opening => exact .goesOn rfl rfl
  | closing => exact .unexpected rfl rfl

private theorem stepOutcome_unexpected {d : Level} {outer : List Pending} {t : Token}
    (hstep : (State.operator d outer).step t =
      d.total >>= fun _ ↦ .error (.unexpectedToken t.lexeme.glyph t.pos))
    (hshape : (Shape.operator outer.length).step t.lexeme = none) :
    (State.operator d outer).StepOutcome t := by
  rcases d.total_cases with ⟨x, hx⟩ | hx
  · exact .unexpected (by rw [hstep, hx, ok_bind]) hshape
  · exact .nonFinite (by rw [hstep, hx, error_bind])

private theorem stepOutcome_operator (d : Level) (outer : List Pending) (t : Token) :
    (State.operator d outer).StepOutcome t := by
  rcases t with ⟨l, pos⟩
  cases l with
  | number x => exact stepOutcome_unexpected (by cases outer <;> rfl) (by cases outer <;> rfl)
  | add op =>
    rcases d.total_cases with ⟨x, hx⟩ | hx
    · exact .goesOn (by rw [State.step_add, hx, ok_bind]) rfl
    · exact .nonFinite (by rw [State.step_add, hx, error_bind])
  | mul op => exact .goesOn rfl rfl
  | opening => exact stepOutcome_unexpected (by cases outer <;> rfl) (by cases outer <;> rfl)
  | closing =>
    cases outer with
    | nil => exact stepOutcome_unexpected rfl rfl
    | cons p outer =>
      rcases d.total_cases with ⟨x, hx⟩ | hx
      · rcases p.supply_cases x with ⟨d', hd⟩ | hd
        · exact .goesOn (by rw [State.step_closing, hx, ok_bind, hd, ok_bind]) rfl
        · exact .nonFinite (by rw [State.step_closing, hx, ok_bind, hd, error_bind])
      · exact .nonFinite (by rw [State.step_closing, hx, error_bind])

/-- A step goes on as the shape says, or meets a result that is not finite, or finds a token that
the shape does not admit. -/
theorem State.stepOutcome (s : State) (t : Token) : s.StepOutcome t := by
  cases s with
  | operand p outer => exact stepOutcome_operand p outer t
  | operator d outer => exact stepOutcome_operator d outer t

/-- An evaluation that has not failed has the shape that its lexemes lead to. -/
theorem State.shape_of_run {s s' : State} {ts : List Token} (h : s.run ts = .ok s') :
    s.shape.run (ts.map Token.lexeme) = some s'.shape := by
  induction ts generalizing s with
  | nil =>
    cases h
    rfl
  | cons t ts ih =>
    rw [State.run] at h
    rw [List.map_cons, Shape.run]
    cases s.stepOutcome t with
    | goesOn hs hshape =>
      rw [hs, ok_bind] at h
      rw [hshape]
      exact ih h
    | nonFinite hs =>
      rw [hs] at h
      cases h
    | unexpected hs =>
      rw [hs] at h
      cases h

/-- Where the lexemes can stand, an evaluation goes on unless a result is not finite. -/
theorem State.run_of_shape {s : State} {ts : List Token} {q : Shape}
    (h : s.shape.run (ts.map Token.lexeme) = some q) :
    (∃ s', s.run ts = .ok s' ∧ s'.shape = q) ∨ s.run ts = .error .nonFinite := by
  induction ts generalizing s with
  | nil => exact .inl ⟨s, rfl, Option.some.inj h⟩
  | cons t ts ih =>
    rw [List.map_cons, Shape.run] at h
    rw [State.run]
    cases s.stepOutcome t with
    | goesOn hs hshape =>
      rw [hshape] at h
      rw [hs]
      exact ih h
    | nonFinite hs =>
      rw [hs]
      exact .inr rfl
    | unexpected hs hshape =>
      rw [hshape] at h
      cases h

end DeskCalculator.Expression
