import DeskCalculator.Proofs.Expression.Derivation

/-!
# The evaluation of a derivation

Reading what a tree derives computes the value of the tree: an operand is supplied to what waits
for it, a term becomes the open term, and an expression is the total of its level. So tokens with a
derivation evaluate to its value.
-/

namespace DeskCalculator.Expression

mutual

/-- Reading what an expression derives makes a level whose total is the value, or fails as the
value does. -/
theorem Expr.run_eq (e : Expr) {ts : List Token} (h : ts.map Token.lexeme = e.lexemes)
    (outer : List Pending) :
    ∃ r : Except EvalError Level, (State.operand {} outer).run ts =
      (r >>= fun d ↦ .ok (.operator d outer)) ∧ r >>= Level.total = e.value := by
  cases e with
  | term t =>
    refine ⟨t.value >>= fun x ↦ .ok ⟨none, x⟩, ?_, ?_⟩
    · rw [t.run_eq h none outer]
      cases t.value <;> rfl
    · rw [Expr.value]
      cases t.value <;> rfl
  | add e op t =>
    obtain ⟨us, vs, rfl, hus, hvs⟩ := List.map_eq_append_iff.mp h
    obtain ⟨⟨l, pos⟩, ws, rfl, rfl, hws⟩ := List.map_eq_cons_iff.mp hvs
    obtain ⟨r, hrun, hvalue⟩ := e.run_eq hus outer
    refine ⟨r >>= fun d ↦ d.total >>= fun a ↦ t.value >>= fun b ↦ .ok ⟨some (a, op), b⟩, ?_, ?_⟩
    · rw [State.run_append, hrun]
      cases r with
      | error e => rfl
      | ok d =>
        rw [ok_bind, ok_bind, ok_bind, State.run, State.step_add]
        cases d.total with
        | error e => rfl
        | ok a =>
          rw [ok_bind, ok_bind, ok_bind, t.run_eq hws (some (a, op)) outer]
          cases t.value <;> rfl
    · rw [Expr.value_add, ← hvalue]
      cases r with
      | error e => rfl
      | ok d =>
        rw [ok_bind, ok_bind]
        cases d.total with
        | error e => rfl
        | ok a => cases t.value <;> rfl

/-- Reading what a term derives makes its value the open term. -/
theorem Term.run_eq (t : Term) {ts : List Token} (h : ts.map Token.lexeme = t.lexemes)
    (sum : Option (Float × AddOp)) (outer : List Pending) :
    (State.operand { sum } outer).run ts =
      t.value >>= fun x ↦ .ok (.operator ⟨sum, x⟩ outer) := by
  cases t with
  | unary u =>
    rw [u.run_eq h, Term.value]
    rfl
  | mul t op u =>
    obtain ⟨us, vs, rfl, hus, hvs⟩ := List.map_eq_append_iff.mp h
    obtain ⟨⟨l, pos⟩, ws, rfl, rfl, hws⟩ := List.map_eq_cons_iff.mp hvs
    rw [State.run_append, t.run_eq hus sum outer, Term.value_mul]
    cases t.value with
    | error e => rfl
    | ok a =>
      rw [ok_bind, ok_bind, ok_bind, State.run, State.step_mul, ok_bind, u.run_eq hws]
      cases u.value with
      | error e => rfl
      | ok b =>
        change (finite (op.apply a b) >>= _) >>= _ = finite (op.apply a b) >>= _
        cases finite (op.apply a b) <;> rfl

/-- Reading what an operand derives supplies its value. -/
theorem Unary.run_eq (u : Unary) {ts : List Token} (h : ts.map Token.lexeme = u.lexemes)
    (p : Pending) (outer : List Pending) :
    (State.operand p outer).run ts =
      u.value >>= fun x ↦ p.supply x >>= fun d ↦ .ok (.operator d outer) := by
  cases u with
  | negate u =>
    obtain ⟨⟨l, pos⟩, us, rfl, rfl, hus⟩ := List.map_eq_cons_iff.mp h
    rw [State.run, State.step_negation, ok_bind, u.run_eq hus, Unary.value]
    cases u.value with
    | error e => rfl
    | ok x =>
      rw [ok_bind, Pending.supply_negations_succ]
      rfl
  | primary q =>
    rw [q.run_eq h, Unary.value]

/-- Reading what an operand derives supplies its value. -/
theorem Primary.run_eq (q : Primary) {ts : List Token} (h : ts.map Token.lexeme = q.lexemes)
    (p : Pending) (outer : List Pending) :
    (State.operand p outer).run ts =
      q.value >>= fun x ↦ p.supply x >>= fun d ↦ .ok (.operator d outer) := by
  cases q with
  | number x =>
    obtain ⟨⟨l, pos⟩, us, rfl, rfl, hus⟩ := List.map_eq_cons_iff.mp h
    obtain rfl := List.map_eq_nil_iff.mp hus
    rw [State.run, State.step_number, Primary.value, ok_bind]
    cases p.supply x <;> rfl
  | group e =>
    obtain ⟨us, vs, rfl, hus, hvs⟩ := List.map_eq_append_iff.mp h
    obtain ⟨⟨l, pos⟩, us, rfl, rfl, hes⟩ := List.map_eq_cons_iff.mp hus
    obtain ⟨⟨l, pos'⟩, ws, rfl, rfl, hws⟩ := List.map_eq_cons_iff.mp hvs
    obtain rfl := List.map_eq_nil_iff.mp hws
    obtain ⟨r, hrun, hvalue⟩ := e.run_eq hes (p :: outer)
    rw [List.cons_append, State.run, State.step_opening, ok_bind, State.run_append, hrun,
      Primary.value, ← hvalue]
    cases r with
    | error e => rfl
    | ok d =>
      rw [ok_bind, ok_bind, ok_bind, State.run, State.step_closing]
      cases d.total with
      | error e => rfl
      | ok x =>
        rw [ok_bind]
        cases p.supply x <;> rfl

end

/-- Tokens that have a derivation evaluate to its value, if that is finite. -/
theorem evaluateTokens_eq {e : Expr} {ts : List Token} (h : ts.map Token.lexeme = e.lexemes) :
    evaluateTokens ts = e.value >>= finite := by
  obtain ⟨r, hrun, hvalue⟩ := e.run_eq h []
  have hne : ts ≠ [] := by
    rintro rfl
    -- Nothing read leaves an operand due, and a tree leaves an operator due.
    cases r with
    | error d => cases hrun
    | ok d => cases hrun
  rw [evaluateTokens, if_neg (by simpa using hne), ← hvalue, State.start, hrun]
  cases r with
  | error d => rfl
  | ok d => rfl

/-- An evaluation that finishes has read a complete expression. -/
private theorem State.shape_of_finish {s : State} {x : Float} (h : s.finish = .ok x) :
    s.shape = .operator 0 := by
  cases s with
  | operand p outer => cases h
  | operator d outer =>
    cases outer with
    | nil => rfl
    | cons p outer =>
      rw [State.finish] at h
      cases hd : d.total with
      | error e => rw [hd] at h; cases h
      | ok y => rw [hd] at h; cases h

/-- Tokens that evaluate to a number are a complete expression. -/
theorem shape_of_evaluateTokens {ts : List Token} {x : Float} (h : evaluateTokens ts = .ok x) :
    (Shape.operand 0).run (ts.map Token.lexeme) = some (.operator 0) := by
  unfold evaluateTokens at h
  split at h
  · cases h
  · cases hrun : State.start.run ts with
    | error e =>
      rw [hrun] at h
      cases h
    | ok s =>
      rw [hrun, ok_bind] at h
      rw [← State.shape_of_finish h]
      exact State.shape_of_run hrun

/-- Tokens evaluate to a number exactly if they have a derivation whose value that number is, and
the number is finite. -/
theorem evaluateTokens_eq_ok_iff {ts : List Token} {x : Float} :
    evaluateTokens ts = .ok x ↔
      ∃ e : Expr, e.lexemes = ts.map Token.lexeme ∧ e.value = .ok x ∧ x.isFinite := by
  constructor
  · intro h
    obtain ⟨e, he⟩ := Expr.exists_lexemes_eq (shape_of_evaluateTokens h)
    rw [evaluateTokens_eq he.symm] at h
    refine ⟨e, he, ?_⟩
    cases hv : e.value with
    | error d => rw [hv] at h; cases h
    | ok y =>
      rw [hv, ok_bind] at h
      obtain ⟨hy, rfl⟩ := finite_eq_ok_iff.mp h
      exact ⟨rfl, hy⟩
  · rintro ⟨e, he, hv, hx⟩
    rw [evaluateTokens_eq he.symm, hv, ok_bind]
    exact finite_eq_ok_iff.mpr ⟨hx, rfl⟩

end DeskCalculator.Expression
