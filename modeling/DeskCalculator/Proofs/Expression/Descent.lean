import DeskCalculator.Proofs.Expression.Shape

/-!
# Recursive descent

The grammar can be read by one function for each of its rules, calling each other: `expr` and
`term` repeat over their operators, `unary` over minus signs, and `primary` goes back to `expr`
between parentheses. `depth` bounds how deep the calls may be nested. Four calls for each token and
four more are always enough, so the recursion ends on every sequence of tokens, and its result, a
value or an error, is that of the evaluation from left to right.
-/

namespace DeskCalculator.Expression

namespace Descent

/-- A result, or none if the calls are nested too deep. -/
abbrev Reading (α : Type) := ExceptT EvalError Option α

/-- The calls are nested too deep. -/
def exhausted {α : Type} : Reading α :=
  ExceptT.mk none

/-- The calls have come to a result. -/
def done {α : Type} (r : Except EvalError α) : Reading α :=
  ExceptT.mk (some r)

/-- The error of a token that cannot stand where it does. -/
def unexpected {α : Type} (t : Token) : Except EvalError α :=
  .error (.unexpectedToken t.lexeme.glyph t.pos)

mutual

/-- `expr := term (('+' | '-') term)*` -/
def expr : (depth : Nat) → List Token → Reading (Float × List Token)
  | 0, _ => exhausted
  | n + 1, ts => do
    let (a, us) ← term n ts
    sum n a us

/-- What follows the terms of an `expr` that have come to `a`. -/
def sum : (depth : Nat) → (a : Float) → List Token → Reading (Float × List Token)
  | 0, _, _ => exhausted
  | n + 1, a, ⟨.add op, _⟩ :: us => do
    let (b, vs) ← term n us
    let c ← done (finite (op.apply a b))
    sum n c vs
  | _ + 1, a, us => done (.ok (a, us))

/-- `term := unary (('*' | '/') unary)*` -/
def term : (depth : Nat) → List Token → Reading (Float × List Token)
  | 0, _ => exhausted
  | n + 1, ts => do
    let (a, us) ← unary n ts
    product n a us

/-- What follows the factors of a `term` that have come to `a`. -/
def product : (depth : Nat) → (a : Float) → List Token → Reading (Float × List Token)
  | 0, _, _ => exhausted
  | n + 1, a, ⟨.mul op, _⟩ :: us => do
    let (b, vs) ← unary n us
    let c ← done (finite (op.apply a b))
    product n c vs
  | _ + 1, a, us => done (.ok (a, us))

/-- `unary := '-' unary | primary` -/
def unary : (depth : Nat) → List Token → Reading (Float × List Token)
  | 0, _ => exhausted
  | n + 1, ⟨.add .minus, _⟩ :: us => do
    let (x, vs) ← unary n us
    done (.ok (-x, vs))
  | n + 1, ts => primary n ts

/-- `primary := number | '(' expr ')'` -/
def primary : (depth : Nat) → List Token → Reading (Float × List Token)
  | 0, _ => exhausted
  | _ + 1, [] => done (.error .unexpectedEnd)
  | _ + 1, ⟨.number x, _⟩ :: us => done (.ok (x, us))
  | n + 1, ⟨.opening, _⟩ :: us => do
    let (x, vs) ← expr n us
    match vs with
    | [] => done (.error .unexpectedEnd)
    | ⟨.closing, _⟩ :: ws => done (.ok (x, ws))
    | t :: _ => done (unexpected t)
  | _ + 1, t :: _ => done (unexpected t)

end

/-- The value of a sequence of tokens. -/
def evaluate (depth : Nat) (ts : List Token) : Reading Float :=
  if ts.isEmpty then done (.error .empty)
  else do
    let (x, us) ← expr depth ts
    match us with
    | [] => done (finite x)
    | t :: _ => done (unexpected t)

end Descent

/-- What an evaluation comes to on the tokens that follow. -/
def State.result (s : State) (ts : List Token) : Except EvalError Float :=
  s.run ts >>= State.finish

theorem State.result_cons {s s' : State} {t : Token} (h : s.step t = .ok s') (ts : List Token) :
    s.result (t :: ts) = s'.result ts := by
  rw [result, run, h]
  rfl

theorem State.result_cons_error {s : State} {t : Token} {e : EvalError} (h : s.step t = .error e)
    (ts : List Token) : s.result (t :: ts) = .error e := by
  rw [result, run, h]
  rfl

namespace Descent

/-- What an evaluation comes to when a level has come to `x` and none of its operators follows. -/
def close (x : Float) : List Pending → List Token → Except EvalError Float
  | [], [] => finite x
  | _ :: _, [] => .error .unexpectedEnd
  | p :: outer, ⟨.closing, _⟩ :: us => p.supply x >>= fun d ↦ (State.operator d outer).result us
  | _, t :: _ => unexpected t

/-- No factor operator follows. -/
def EndsTerm (ts : List Token) : Prop :=
  ∀ t ∈ ts.head?, ∀ op, t.lexeme ≠ .mul op

/-- No minus sign follows. -/
def EndsNegation (ts : List Token) : Prop :=
  ∀ t ∈ ts.head?, t.lexeme ≠ .add .minus

/-- A reading `m` agrees with an evaluation that comes to `whole`: both fail alike, or the reading
gives a value and leaves tokens with which the evaluation goes on as `next` says. -/
inductive Agrees (m : Reading (Float × List Token)) (leaves : List Token → Prop)
    (whole : Except EvalError Float) (next : Float → List Token → Except EvalError Float) :
    Prop where
  | error {e : EvalError} (hm : m = done (.error e)) (hw : whole = .error e)
  | ok {x : Float} {us : List Token} (hm : m = done (.ok (x, us))) (hus : leaves us)
      (hw : whole = next x us)

/-- What the readings of a depth do. -/
structure Spec (n : Nat) : Prop where
  expr (ts : List Token) (outer : List Pending) : 4 * ts.length + 4 ≤ n →
    Agrees (expr n ts) (fun us ↦ us.length < ts.length) ((State.operand {} outer).result ts)
      fun x us ↦ close x outer us
  sum (d : Level) (a : Float) (ts : List Token) (outer : List Pending) : 4 * ts.length + 1 ≤ n →
    d.total = .ok a → EndsTerm ts →
    Agrees (sum n a ts) (fun us ↦ us.length ≤ ts.length) ((State.operator d outer).result ts)
      fun x us ↦ close x outer us
  term (s : Option (Float × AddOp)) (ts : List Token) (outer : List Pending) :
    4 * ts.length + 3 ≤ n →
    Agrees (term n ts) (fun us ↦ us.length < ts.length ∧ EndsTerm us)
      ((State.operand { sum := s } outer).result ts)
      fun x us ↦ (State.operator ⟨s, x⟩ outer).result us
  product (s : Option (Float × AddOp)) (a : Float) (ts : List Token) (outer : List Pending) :
    4 * ts.length + 1 ≤ n →
    Agrees (product n a ts) (fun us ↦ us.length ≤ ts.length ∧ EndsTerm us)
      ((State.operator ⟨s, a⟩ outer).result ts)
      fun x us ↦ (State.operator ⟨s, x⟩ outer).result us
  unary (p : Pending) (ts : List Token) (outer : List Pending) : 4 * ts.length + 2 ≤ n →
    Agrees (unary n ts) (fun us ↦ us.length < ts.length) ((State.operand p outer).result ts)
      fun x us ↦ p.supply x >>= fun d ↦ (State.operator d outer).result us
  primary (p : Pending) (ts : List Token) (outer : List Pending) : 4 * ts.length + 1 ≤ n →
    EndsNegation ts →
    Agrees (primary n ts) (fun us ↦ us.length < ts.length) ((State.operand p outer).result ts)
      fun x us ↦ p.supply x >>= fun d ↦ (State.operator d outer).result us

variable {n : Nat}

/-- A level that has come to `x` is closed by what is none of its operators. -/
private theorem result_eq_close {d : Level} {x : Float} (hd : d.total = .ok x)
    (outer : List Pending) {ts : List Token} (hterm : EndsTerm ts)
    (hadd : ∀ t ∈ ts.head?, ∀ op, t.lexeme ≠ .add op) :
    (State.operator d outer).result ts = close x outer ts := by
  cases ts with
  | nil =>
    change d.total >>= _ = _
    rw [hd]
    cases outer <;> rfl
  | cons t us =>
    rcases t with ⟨l, pos⟩
    cases l with
    | number y =>
      rw [State.result_cons_error (e := .unexpectedToken '0' pos)]
      · cases outer <;> rfl
      · simp only [State.step, hd]
        rfl
    | add op => exact absurd rfl (hadd _ rfl op)
    | mul op => exact absurd rfl (hterm _ rfl op)
    | opening =>
      rw [State.result_cons_error (e := .unexpectedToken '(' pos)]
      · cases outer <;> rfl
      · simp only [State.step, hd]
        rfl
    | closing =>
      cases outer with
      | nil =>
        rw [State.result_cons_error (e := .unexpectedToken ')' pos)]
        · rfl
        · simp only [State.step, hd]
          rfl
      | cons p outer =>
        rw [State.result, State.run, State.step_closing, hd, ok_bind, close]
        cases p.supply x <;> rfl

/-- A level without a finite total fails before anything but a factor operator. -/
private theorem result_of_total_error {d : Level} {e : EvalError} (hd : d.total = .error e)
    (outer : List Pending) {ts : List Token} (hterm : EndsTerm ts) :
    (State.operator d outer).result ts = .error e := by
  cases ts with
  | nil =>
    change d.total >>= _ = _
    rw [hd]
    rfl
  | cons t us =>
    apply State.result_cons_error
    rcases t with ⟨l, pos⟩
    cases l with
    | mul op => exact absurd rfl (hterm _ rfl op)
    | closing =>
      cases outer with
      | nil => simp only [State.step, hd]; rfl
      | cons p outer => rw [State.step_closing, hd, error_bind]
    | number y => simp only [State.step, hd]; rfl
    | add op => rw [State.step_add, hd, error_bind]
    | opening => simp only [State.step, hd]; rfl

private theorem expr_step (ih : Spec n) (ts : List Token) (outer : List Pending)
    (h : 4 * ts.length + 4 ≤ n + 1) :
    Agrees (expr (n + 1) ts) (fun us ↦ us.length < ts.length)
      ((State.operand {} outer).result ts) fun x us ↦ close x outer us := by
  cases ih.term none ts outer (by omega) with
  | error hm hw => exact .error (by rw [expr, hm]; rfl) hw
  | @ok a us hm hus hw =>
    rw [hw]
    cases ih.sum ⟨none, a⟩ a us outer (by omega) rfl hus.2 with
    | error hm' hw' => exact .error (by rw [expr, hm]; exact hm') hw'
    | ok hm' hvs hw' =>
      exact .ok (by rw [expr, hm]; exact hm') (Nat.lt_of_le_of_lt hvs hus.1) hw'

private theorem sum_add_step (ih : Spec n) {d : Level} {a : Float} (hd : d.total = .ok a)
    (op : AddOp) (pos : Nat) (us : List Token) (outer : List Pending)
    (h : 4 * us.length + 4 ≤ n) :
    Agrees (sum (n + 1) a (⟨.add op, pos⟩ :: us)) (fun vs ↦ vs.length ≤ us.length + 1)
      ((State.operator d outer).result (⟨.add op, pos⟩ :: us)) fun x vs ↦ close x outer vs := by
  have hstep : (State.operator d outer).step ⟨.add op, pos⟩ =
      .ok (.operand { sum := some (a, op) } outer) := by
    rw [State.step_add, hd, ok_bind]
  rw [State.result_cons hstep]
  cases ih.term (some (a, op)) us outer (by omega) with
  | error hm hw => exact .error (by rw [sum, hm]; rfl) hw
  | @ok b vs hm hvs hw =>
    rw [hw]
    cases hc : finite (op.apply a b) with
    | error e =>
      refine .error ?_ (result_of_total_error (d := ⟨some (a, op), b⟩) hc outer hvs.2)
      rw [sum, hm]
      change done (finite (op.apply a b)) >>= _ = _
      rw [hc]
      rfl
    | ok c =>
      have hsum : sum (n + 1) a (⟨.add op, pos⟩ :: us) = sum n c vs := by
        rw [sum, hm]
        change done (finite (op.apply a b)) >>= _ = _
        rw [hc]
        rfl
      rw [hsum]
      cases ih.sum ⟨some (a, op), b⟩ c vs outer (by omega) hc hvs.2 with
      | error hm' hw' => exact .error hm' hw'
      | ok hm' hws hw' => exact .ok hm' (by omega) hw'

private theorem sum_step (ih : Spec n) (d : Level) (a : Float) (ts : List Token)
    (outer : List Pending) (h : 4 * ts.length + 1 ≤ n + 1) (hd : d.total = .ok a)
    (hterm : EndsTerm ts) :
    Agrees (sum (n + 1) a ts) (fun us ↦ us.length ≤ ts.length)
      ((State.operator d outer).result ts) fun x us ↦ close x outer us := by
  cases ts with
  | nil => exact .ok rfl (Nat.le_refl _) (result_eq_close hd outer hterm (by simp))
  | cons t us =>
    rcases t with ⟨l, pos⟩
    rw [List.length_cons] at h
    cases l with
    | add op => exact sum_add_step ih hd op pos us outer (by omega)
    | number y => exact .ok rfl (Nat.le_refl _) (result_eq_close hd outer hterm (by simp))
    | mul op => exact absurd rfl (hterm _ rfl op)
    | opening => exact .ok rfl (Nat.le_refl _) (result_eq_close hd outer hterm (by simp))
    | closing => exact .ok rfl (Nat.le_refl _) (result_eq_close hd outer hterm (by simp))

private theorem term_step (ih : Spec n) (s : Option (Float × AddOp)) (ts : List Token)
    (outer : List Pending) (h : 4 * ts.length + 3 ≤ n + 1) :
    Agrees (term (n + 1) ts) (fun us ↦ us.length < ts.length ∧ EndsTerm us)
      ((State.operand { sum := s } outer).result ts)
      fun x us ↦ (State.operator ⟨s, x⟩ outer).result us := by
  cases ih.unary { sum := s } ts outer (by omega) with
  | error hm hw => exact .error (by rw [term, hm]; rfl) hw
  | @ok a us hm hus hw =>
    have hw : (State.operand { sum := s } outer).result ts =
        (State.operator ⟨s, a⟩ outer).result us := hw
    rw [hw]
    cases ih.product s a us outer (by omega) with
    | error hm' hw' => exact .error (by rw [term, hm]; exact hm') hw'
    | ok hm' hvs hw' =>
      exact .ok (by rw [term, hm]; exact hm') ⟨Nat.lt_of_le_of_lt hvs.1 hus, hvs.2⟩ hw'

private theorem product_mul_step (ih : Spec n) (s : Option (Float × AddOp)) (a : Float)
    (op : MulOp) (pos : Nat) (us : List Token) (outer : List Pending)
    (h : 4 * us.length + 4 ≤ n) :
    Agrees (product (n + 1) a (⟨.mul op, pos⟩ :: us))
      (fun vs ↦ vs.length ≤ us.length + 1 ∧ EndsTerm vs)
      ((State.operator ⟨s, a⟩ outer).result (⟨.mul op, pos⟩ :: us))
      fun x vs ↦ (State.operator ⟨s, x⟩ outer).result vs := by
  rw [State.result_cons (State.step_mul ⟨s, a⟩ outer pos op)]
  cases ih.unary { sum := s, product := some (a, op) } us outer (by omega) with
  | error hm hw => exact .error (by rw [product, hm]; rfl) hw
  | @ok b vs hm hvs hw =>
    have hw : (State.operand { sum := s, product := some (a, op) } outer).result us =
        (finite (op.apply a b) >>= fun y ↦ .ok ⟨s, y⟩) >>= fun d ↦
          (State.operator d outer).result vs := hw
    rw [hw]
    cases hc : finite (op.apply a b) with
    | error e =>
      refine .error ?_ rfl
      rw [product, hm]
      change done (finite (op.apply a b)) >>= _ = _
      rw [hc]
      rfl
    | ok c =>
      have hproduct : product (n + 1) a (⟨.mul op, pos⟩ :: us) = product n c vs := by
        rw [product, hm]
        change done (finite (op.apply a b)) >>= _ = _
        rw [hc]
        rfl
      rw [hproduct, ok_bind, ok_bind]
      cases ih.product s c vs outer (by omega) with
      | error hm' hw' => exact .error hm' hw'
      | ok hm' hws hw' => exact .ok hm' ⟨by omega, hws.2⟩ hw'

private theorem product_step (ih : Spec n) (s : Option (Float × AddOp)) (a : Float)
    (ts : List Token) (outer : List Pending) (h : 4 * ts.length + 1 ≤ n + 1) :
    Agrees (product (n + 1) a ts) (fun us ↦ us.length ≤ ts.length ∧ EndsTerm us)
      ((State.operator ⟨s, a⟩ outer).result ts)
      fun x us ↦ (State.operator ⟨s, x⟩ outer).result us := by
  cases ts with
  | nil => exact .ok rfl ⟨Nat.le_refl _, by simp [EndsTerm]⟩ rfl
  | cons t us =>
    rcases t with ⟨l, pos⟩
    rw [List.length_cons] at h
    cases l with
    | mul op => exact product_mul_step ih s a op pos us outer (by omega)
    | number y => exact .ok rfl ⟨Nat.le_refl _, by simp [EndsTerm]⟩ rfl
    | add op => exact .ok rfl ⟨Nat.le_refl _, by simp [EndsTerm]⟩ rfl
    | opening => exact .ok rfl ⟨Nat.le_refl _, by simp [EndsTerm]⟩ rfl
    | closing => exact .ok rfl ⟨Nat.le_refl _, by simp [EndsTerm]⟩ rfl

private theorem unary_primary_step (ih : Spec n) (p : Pending) (ts : List Token)
    (outer : List Pending) (h : 4 * ts.length + 1 ≤ n) (hts : EndsNegation ts)
    (hunary : unary (n + 1) ts = primary n ts) :
    Agrees (unary (n + 1) ts) (fun us ↦ us.length < ts.length)
      ((State.operand p outer).result ts)
      fun x us ↦ p.supply x >>= fun d ↦ (State.operator d outer).result us := by
  rw [hunary]
  exact ih.primary p ts outer h hts

private theorem unary_step (ih : Spec n) (p : Pending) (ts : List Token) (outer : List Pending)
    (h : 4 * ts.length + 2 ≤ n + 1) :
    Agrees (unary (n + 1) ts) (fun us ↦ us.length < ts.length)
      ((State.operand p outer).result ts)
      fun x us ↦ p.supply x >>= fun d ↦ (State.operator d outer).result us := by
  cases ts with
  | nil => exact unary_primary_step ih p [] outer (by omega) (by simp [EndsNegation]) rfl
  | cons t us =>
    rcases t with ⟨l, pos⟩
    cases l with
    | add op =>
      cases op with
      | plus =>
        exact unary_primary_step ih p _ outer (by omega) (by simp [EndsNegation]) rfl
      | minus =>
        rw [List.length_cons] at h
        rw [State.result_cons (State.step_negation p outer pos)]
        cases ih.unary { p with negations := p.negations + 1 } us outer (by omega) with
        | error hm hw => exact .error (by rw [unary, hm]; rfl) hw
        | @ok x vs hm hvs hw =>
          rw [Pending.supply_negations_succ] at hw
          exact .ok (by rw [unary, hm]; rfl) (Nat.lt_succ_of_lt hvs) hw
    | number y => exact unary_primary_step ih p _ outer (by omega) (by simp [EndsNegation]) rfl
    | mul op => exact unary_primary_step ih p _ outer (by omega) (by simp [EndsNegation]) rfl
    | opening => exact unary_primary_step ih p _ outer (by omega) (by simp [EndsNegation]) rfl
    | closing => exact unary_primary_step ih p _ outer (by omega) (by simp [EndsNegation]) rfl

private theorem primary_group_step (ih : Spec n) (p : Pending) (pos : Nat) (us : List Token)
    (outer : List Pending) (h : 4 * us.length + 4 ≤ n) :
    Agrees (primary (n + 1) (⟨.opening, pos⟩ :: us)) (fun vs ↦ vs.length < us.length + 1)
      ((State.operand p outer).result (⟨.opening, pos⟩ :: us))
      fun x vs ↦ p.supply x >>= fun d ↦ (State.operator d outer).result vs := by
  rw [State.result_cons (State.step_opening p outer pos)]
  cases ih.expr us (p :: outer) (by omega) with
  | error hm hw => exact .error (by rw [primary, hm]; rfl) hw
  | @ok x vs hm hvs hw =>
    rw [hw]
    cases vs with
    | nil => exact .error (by rw [primary, hm]; rfl) rfl
    | cons t ws =>
      rcases t with ⟨l, pos'⟩
      rw [List.length_cons] at hvs
      cases l with
      | closing => exact .ok (by rw [primary, hm]; rfl) (by omega) rfl
      | number y => exact .error (by rw [primary, hm]; rfl) rfl
      | add op => exact .error (by rw [primary, hm]; rfl) rfl
      | mul op => exact .error (by rw [primary, hm]; rfl) rfl
      | opening => exact .error (by rw [primary, hm]; rfl) rfl

private theorem primary_step (ih : Spec n) (p : Pending) (ts : List Token) (outer : List Pending)
    (h : 4 * ts.length + 1 ≤ n + 1) (hts : EndsNegation ts) :
    Agrees (primary (n + 1) ts) (fun us ↦ us.length < ts.length)
      ((State.operand p outer).result ts)
      fun x us ↦ p.supply x >>= fun d ↦ (State.operator d outer).result us := by
  cases ts with
  | nil => exact .error rfl rfl
  | cons t us =>
    rcases t with ⟨l, pos⟩
    cases l with
    | number x =>
      refine .ok rfl (Nat.lt_succ_self _) ?_
      rw [State.result, State.run, State.step_number]
      cases p.supply x <;> rfl
    | add op =>
      cases op with
      | plus => exact .error rfl rfl
      | minus => exact absurd rfl (hts _ rfl)
    | mul op => exact .error rfl rfl
    | opening =>
      rw [List.length_cons] at h
      exact primary_group_step ih p pos us outer (by omega)
    | closing => exact .error rfl rfl

/-- Every depth is enough for what it bounds. -/
private theorem spec (n : Nat) : Spec n := by
  induction n with
  | zero =>
    constructor <;> intros <;> omega
  | succ n ih =>
    exact
      { expr := expr_step ih
        sum := sum_step ih
        term := term_step ih
        product := product_step ih
        unary := unary_step ih
        primary := primary_step ih }

/-- On every sequence of tokens the recursion ends within a depth of four calls for each token and
four more, and its result is that of the evaluation from left to right. -/
theorem evaluate_eq {depth : Nat} {ts : List Token} (h : 4 * ts.length + 4 ≤ depth) :
    evaluate depth ts = done (evaluateTokens ts) := by
  unfold evaluate evaluateTokens
  split
  · rfl
  · change _ = done (State.start.result ts)
    cases (spec depth).expr ts [] h with
    | error hm hw =>
      rw [hm, State.start, hw]
      rfl
    | @ok x us hm hus hw =>
      rw [hm, State.start, hw]
      cases us with
      | nil => rfl
      | cons t us =>
        rcases t with ⟨l, pos⟩
        cases l <;> rfl

end Descent

end DeskCalculator.Expression
