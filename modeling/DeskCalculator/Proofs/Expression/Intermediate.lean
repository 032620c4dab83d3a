import DeskCalculator.Proofs.Expression.Acceptance
import DeskCalculator.Proofs.Number.Infinity
import Mathlib.Data.List.Basic

/-!
# Values inside an expression

Every operation of an expression with a value gives a finite number, but a number literal is taken
as it is, and one that is too large for a double is infinite. Minus signs and parentheses around it
leave it infinite, and an operation on it gives no finite number, unless it is a divisor: then the
quotient is zero, and nothing of the infinity is seen outside.
-/

namespace DeskCalculator.Expression

/-- A subexpression, by the rule that it derives from. -/
inductive Part where
  | expr (e : Expr)
  | term (t : Term)
  | unary (u : Unary)
  | primary (p : Primary)

mutual

/-- The subexpressions, the whole included. -/
def Expr.parts : Expr → List Part
  | .term t => .expr (.term t) :: t.parts
  | .add e op t => .expr (.add e op t) :: (e.parts ++ t.parts)

/-- The subexpressions, the whole included. -/
def Term.parts : Term → List Part
  | .unary u => .term (.unary u) :: u.parts
  | .mul t op u => .term (.mul t op u) :: (t.parts ++ u.parts)

/-- The subexpressions, the whole included. -/
def Unary.parts : Unary → List Part
  | .negate u => .unary (.negate u) :: u.parts
  | .primary p => .unary (.primary p) :: p.parts

/-- The subexpressions, the whole included. -/
def Primary.parts : Primary → List Part
  | .number x => [.primary (.number x)]
  | .group e => .primary (.group e) :: e.parts

end

mutual

/-- The number literal that an expression is, within minus signs and parentheses. -/
def Expr.literal? : Expr → Option Float
  | .term t => t.literal?
  | .add .. => none

/-- The number literal that a term is, within minus signs and parentheses. -/
def Term.literal? : Term → Option Float
  | .unary u => u.literal?
  | .mul .. => none

/-- The number literal that an operand is, within minus signs and parentheses. -/
def Unary.literal? : Unary → Option Float
  | .negate u => u.literal?
  | .primary p => p.literal?

/-- The number literal that an operand is, within minus signs and parentheses. -/
def Primary.literal? : Primary → Option Float
  | .number x => some x
  | .group e => e.literal?

end

/-- What a subexpression means. -/
def Part.value : Part → Except EvalError Float
  | expr e => e.value
  | term t => t.value
  | unary u => u.value
  | primary p => p.value

/-- The number literal that a subexpression is, within minus signs and parentheses. -/
def Part.literal? : Part → Option Float
  | expr e => e.literal?
  | term t => t.literal?
  | unary u => u.literal?
  | primary p => p.literal?

/-- A result is a finite number. -/
def IsFiniteValue (r : Except EvalError Float) : Prop :=
  ∃ x, r = .ok x ∧ x.isFinite

/-- A computation that succeeds after another one goes on from its result. -/
theorem exists_of_bind_eq_ok {α β : Type} {r : Except EvalError α} {f : α → Except EvalError β}
    {b : β} (h : r >>= f = .ok b) : ∃ a, r = .ok a ∧ f a = .ok b := by
  cases r with
  | error e => cases h
  | ok a => exact ⟨a, rfl, h⟩

/-! ### Operations -/

/-- The operands of a sum or difference with a value, which is finite. -/
theorem Expr.exists_of_value_add {e : Expr} {op : AddOp} {t : Term} {x : Float}
    (h : (Expr.add e op t).value = .ok x) :
    ∃ a b, e.value = .ok a ∧ t.value = .ok b ∧ op.apply a b = x ∧ x.isFinite := by
  rw [Expr.value_add] at h
  obtain ⟨a, ha, h⟩ := exists_of_bind_eq_ok h
  obtain ⟨b, hb, h⟩ := exists_of_bind_eq_ok h
  obtain ⟨hfinite, rfl⟩ := finite_eq_ok_iff.mp h
  exact ⟨a, b, ha, hb, rfl, hfinite⟩

/-- The operands of a product or quotient with a value, which is finite. -/
theorem Term.exists_of_value_mul {t : Term} {op : MulOp} {u : Unary} {x : Float}
    (h : (Term.mul t op u).value = .ok x) :
    ∃ a b, t.value = .ok a ∧ u.value = .ok b ∧ op.apply a b = x ∧ x.isFinite := by
  rw [Term.value_mul] at h
  obtain ⟨a, ha, h⟩ := exists_of_bind_eq_ok h
  obtain ⟨b, hb, h⟩ := exists_of_bind_eq_ok h
  obtain ⟨hfinite, rfl⟩ := finite_eq_ok_iff.mp h
  exact ⟨a, b, ha, hb, rfl, hfinite⟩

/-- The value under a minus sign. -/
theorem Unary.exists_of_value_negate {u : Unary} {x : Float} (h : u.negate.value = .ok x) :
    ∃ a, u.value = .ok a ∧ -a = x := by
  rw [Unary.value] at h
  obtain ⟨a, ha, h⟩ := exists_of_bind_eq_ok h
  exact ⟨a, ha, Except.ok.inj h⟩

/-- The terms of a sum or difference with a value are finite. -/
private theorem Expr.isFiniteValue_of_add {e : Expr} {op : AddOp} {t : Term} {x : Float}
    (h : (Expr.add e op t).value = .ok x) : IsFiniteValue e.value ∧ IsFiniteValue t.value := by
  obtain ⟨a, b, ha, hb, rfl, hfinite⟩ := exists_of_value_add h
  have hoperands : a.isFinite ∧ b.isFinite := by
    cases op with
    | plus => exact Number.isFinite_of_isFinite_add hfinite
    | minus => exact Number.isFinite_of_isFinite_sub hfinite
  exact ⟨⟨a, ha, hoperands.1⟩, b, hb, hoperands.2⟩

/-- The first operand of a product or quotient with a value is finite, and so is the second, unless
it is a divisor and the quotient zero. -/
private theorem Term.isFiniteValue_of_mul {t : Term} {op : MulOp} {u : Unary} {x : Float}
    (h : (Term.mul t op u).value = .ok x) :
    IsFiniteValue t.value ∧ (IsFiniteValue u.value ∨ op = .divide ∧ x == 0) := by
  obtain ⟨a, b, ha, hb, rfl, hfinite⟩ := exists_of_value_mul h
  cases op with
  | times =>
    have hoperands := Number.isFinite_of_isFinite_mul hfinite
    exact ⟨⟨a, ha, hoperands.1⟩, .inl ⟨b, hb, hoperands.2⟩⟩
  | divide =>
    obtain ⟨hdividend, hdivisor⟩ := Number.isFinite_of_isFinite_div hfinite
    exact ⟨⟨a, ha, hdividend⟩, hdivisor.imp (fun hb' ↦ ⟨b, hb, hb'⟩) fun hzero ↦ ⟨rfl, hzero⟩⟩

/-! ### Subexpressions -/

mutual

/-- Where an expression has a value, all its subexpressions do. -/
theorem Expr.exists_value_of_mem_parts (e : Expr) {x : Float} (h : e.value = .ok x) {p : Part}
    (hp : p ∈ e.parts) : ∃ y, p.value = .ok y := by
  cases e with
  | term t =>
    rcases List.mem_cons.mp hp with rfl | hp
    · exact ⟨x, h⟩
    · exact t.exists_value_of_mem_parts h hp
  | add e op t =>
    rcases List.mem_cons.mp hp with rfl | hp
    · exact ⟨x, h⟩
    · obtain ⟨a, b, ha, hb, -⟩ := Expr.exists_of_value_add h
      rcases List.mem_append.mp hp with hp | hp
      · exact e.exists_value_of_mem_parts ha hp
      · exact t.exists_value_of_mem_parts hb hp

/-- Where a term has a value, all its subexpressions do. -/
theorem Term.exists_value_of_mem_parts (t : Term) {x : Float} (h : t.value = .ok x) {p : Part}
    (hp : p ∈ t.parts) : ∃ y, p.value = .ok y := by
  cases t with
  | unary u =>
    rcases List.mem_cons.mp hp with rfl | hp
    · exact ⟨x, h⟩
    · exact u.exists_value_of_mem_parts h hp
  | mul t op u =>
    rcases List.mem_cons.mp hp with rfl | hp
    · exact ⟨x, h⟩
    · obtain ⟨a, b, ha, hb, -⟩ := Term.exists_of_value_mul h
      rcases List.mem_append.mp hp with hp | hp
      · exact t.exists_value_of_mem_parts ha hp
      · exact u.exists_value_of_mem_parts hb hp

/-- Where an operand has a value, all its subexpressions do. -/
theorem Unary.exists_value_of_mem_parts (u : Unary) {x : Float} (h : u.value = .ok x) {p : Part}
    (hp : p ∈ u.parts) : ∃ y, p.value = .ok y := by
  cases u with
  | negate u =>
    rcases List.mem_cons.mp hp with rfl | hp
    · exact ⟨x, h⟩
    · obtain ⟨a, ha, -⟩ := Unary.exists_of_value_negate h
      exact u.exists_value_of_mem_parts ha hp
  | primary q =>
    rcases List.mem_cons.mp hp with rfl | hp
    · exact ⟨x, h⟩
    · exact q.exists_value_of_mem_parts h hp

/-- Where an operand has a value, all its subexpressions do. -/
theorem Primary.exists_value_of_mem_parts (q : Primary) {x : Float} (h : q.value = .ok x) {p : Part}
    (hp : p ∈ q.parts) : ∃ y, p.value = .ok y := by
  cases q with
  | number y =>
    obtain rfl := List.mem_singleton.mp hp
    exact ⟨x, h⟩
  | group e =>
    rcases List.mem_cons.mp hp with rfl | hp
    · exact ⟨x, h⟩
    · exact e.exists_value_of_mem_parts h hp

end

mutual

/-- Only a number literal has a value that is not finite. -/
theorem Expr.isFinite_or_literal (e : Expr) {x : Float} (h : e.value = .ok x) :
    x.isFinite ∨ ∃ y, e.literal? = some y ∧ y.isFinite = false := by
  cases e with
  | term t => exact t.isFinite_or_literal h
  | add e op t =>
    obtain ⟨_, _, _, _, _, hfinite⟩ := Expr.exists_of_value_add h
    exact .inl hfinite

/-- Only a number literal has a value that is not finite. -/
theorem Term.isFinite_or_literal (t : Term) {x : Float} (h : t.value = .ok x) :
    x.isFinite ∨ ∃ y, t.literal? = some y ∧ y.isFinite = false := by
  cases t with
  | unary u => exact u.isFinite_or_literal h
  | mul t op u =>
    obtain ⟨_, _, _, _, _, hfinite⟩ := Term.exists_of_value_mul h
    exact .inl hfinite

/-- Only a number literal has a value that is not finite. -/
theorem Unary.isFinite_or_literal (u : Unary) {x : Float} (h : u.value = .ok x) :
    x.isFinite ∨ ∃ y, u.literal? = some y ∧ y.isFinite = false := by
  cases u with
  | negate u =>
    obtain ⟨a, ha, rfl⟩ := Unary.exists_of_value_negate h
    rw [Number.isFinite_neg]
    exact u.isFinite_or_literal ha
  | primary p => exact p.isFinite_or_literal h

/-- Only a number literal has a value that is not finite. -/
theorem Primary.isFinite_or_literal (p : Primary) {x : Float} (h : p.value = .ok x) :
    x.isFinite ∨ ∃ y, p.literal? = some y ∧ y.isFinite = false := by
  cases p with
  | number y =>
    cases h
    cases hx : x.isFinite with
    | true => exact .inl rfl
    | false => exact .inr ⟨x, rfl, hx⟩
  | group e => exact e.isFinite_or_literal h

end

/-- Only a number literal has a value that is not finite. -/
theorem Part.isFinite_or_literal (p : Part) {x : Float} (h : p.value = .ok x) :
    x.isFinite ∨ ∃ y, p.literal? = some y ∧ y.isFinite = false := by
  cases p with
  | expr e => exact e.isFinite_or_literal h
  | term t => exact t.isFinite_or_literal h
  | unary u => exact u.isFinite_or_literal h
  | primary p => exact p.isFinite_or_literal h

/-- A text with a value has a derivation in which the whole, every operation, and both operands of
every operation are finite, except that a divisor can be a number literal too large to be
represented, within minus signs and parentheses; the quotient is zero then. So every subexpression
has a value, and it is finite unless it is such a literal. -/
theorem evaluate_intermediate {cs : List Char} {v : Float} (h : evaluate cs = .ok v) :
    ∃ e : Expr, Lexes cs e.lexemes ∧ e.value = .ok v ∧ v.isFinite ∧
      ∀ p ∈ e.parts,
        (IsFiniteValue p.value ∨
          ∃ x y, p.value = .ok x ∧ p.literal? = some y ∧ y.isFinite = false) ∧
        (∀ a op b, p = .expr (.add a op b) → IsFiniteValue a.value ∧ IsFiniteValue b.value) ∧
        ∀ a op b, p = .term (.mul a op b) → IsFiniteValue a.value ∧
          (IsFiniteValue b.value ∨ op = .divide ∧
            ∃ y q, b.literal? = some y ∧ y.isFinite = false ∧ p.value = .ok q ∧ q == 0) := by
  obtain ⟨e, hlexes, hvalue, hfinite⟩ := evaluate_eq_ok_iff.mp h
  refine ⟨e, hlexes, hvalue, hfinite, fun p hp ↦ ?_⟩
  obtain ⟨x, hx⟩ := e.exists_value_of_mem_parts hvalue hp
  refine ⟨?_, ?_, ?_⟩
  · rcases p.isFinite_or_literal hx with hx' | ⟨y, hy, hinfinite⟩
    · exact .inl ⟨x, hx, hx'⟩
    · exact .inr ⟨x, y, hx, hy, hinfinite⟩
  · rintro a op b rfl
    exact Expr.isFiniteValue_of_add hx
  · rintro a op b rfl
    obtain ⟨ha, hb⟩ := Term.isFiniteValue_of_mul hx
    refine ⟨ha, ?_⟩
    obtain ⟨_, z, _, hz, -⟩ := Term.exists_of_value_mul hx
    rcases b.isFinite_or_literal hz with hz' | ⟨y, hy, hinfinite⟩
    · exact .inl ⟨z, hz, hz'⟩
    · exact hb.imp_right fun ⟨hop, hzero⟩ ↦ ⟨hop, y, x, hy, hinfinite, hx, hzero⟩

/-- A sign before a group, a product, and a quotient by a negated group: all operands are finite. -/
theorem evaluate_intermediate_of_nested_quotient :
    evaluate "-(1-.5)*6/-(2+2)".toList = .ok 0.75 ∧
      ∃ e : Expr, Lexes "-(1-.5)*6/-(2+2)".toList e.lexemes ∧ e.value = .ok 0.75 ∧
        ∀ a op b, .expr (.add a op b) ∈ e.parts → IsFiniteValue a.value ∧ IsFiniteValue b.value := by
  have hvalue : evaluate "-(1-.5)*6/-(2+2)".toList = .ok 0.75 := by decide +kernel
  obtain ⟨e, hlexes, he, -, hparts⟩ := evaluate_intermediate hvalue
  exact ⟨hvalue, e, hlexes, he, fun a op b hp ↦ (hparts _ hp).2.1 a op b rfl⟩

/-- A divisor of 400 digits is infinite, and dividing by it gives zero. -/
theorem infinite_divisor_unnoticed :
    evaluate ('1' :: '/' :: List.replicate 400 '9') = .ok 0 ∧
      ∃ e : Expr, Lexes ('1' :: '/' :: List.replicate 400 '9') e.lexemes ∧
        ∃ p ∈ e.parts, ∃ x, p.value = .ok x ∧ x.isFinite = false := by
  have hvalue : evaluate ('1' :: '/' :: List.replicate 400 '9') = .ok 0 := by decide +kernel
  have hinfinite : (numeralValue (List.replicate 400 '9')).isFinite = false := by decide +kernel
  have hnines : Lexes (List.replicate 400 '9' ++ [])
      [.number (numeralValue (List.replicate 400 '9'))] := by
    refine .number (fun c hc ↦ ?_) ⟨'9', by decide, rfl⟩ ?_ (fun c hc ↦ by cases hc) .nil
    · rw [List.eq_of_mem_replicate hc]
      rfl
    · rw [List.count_replicate]
      decide
  rw [List.append_nil] at hnines
  have hlexes : Lexes (['1'] ++ '/' :: List.replicate 400 '9')
      [.number (numeralValue ['1']), .mul .divide,
        .number (numeralValue (List.replicate 400 '9'))] := by
    refine .number (fun c hc ↦ ?_) ⟨'1', by decide, rfl⟩ (by decide) (fun c hc ↦ ?_)
      (.symbol rfl hnines)
    · rw [List.mem_singleton.mp hc]
      rfl
    · cases hc
      rfl
  have hpart (x y : Float) : Part.primary (.number y) ∈
      (Expr.term (.mul (.unary (.primary (.number x))) .divide (.primary (.number y)))).parts := by
    simp [Expr.parts, Term.parts, Unary.parts, Primary.parts]
  exact ⟨hvalue, .term (.mul (.unary (.primary (.number _))) .divide (.primary (.number _))), hlexes,
    _, hpart _ _, _, rfl, hinfinite⟩

end DeskCalculator.Expression
