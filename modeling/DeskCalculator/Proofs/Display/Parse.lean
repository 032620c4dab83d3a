import DeskCalculator.Proofs.Display.Tree
import DeskCalculator.Proofs.Expression.Shape

/-!
# Finding the derivation

`Frontier` is an evaluation that keeps trees where the evaluation has numbers. Reading what a
sentence derives gives that sentence back, so no two sentences derive the same. Where the shape
admits a sequence of lexemes, it is read, so every sequence that ends in a complete shape has a
derivation.
-/

namespace DeskCalculator.Display

open Expression (AddOp MulOp Shape)

/-- What one level of parentheses has read before its next operand. -/
structure Context where
  plus : Bool := false
  /-- The terms so far and the operator after them. -/
  sum : Option (Expr × AddOp) := none
  /-- The open term so far and the operator after it. -/
  product : Option (Term × MulOp) := none
  /-- The minus signs that stand directly before the operand. -/
  negations : Nat := 0

/-- What one level of parentheses has read after an operand. -/
structure Level where
  plus : Bool
  sum : Option (Expr × AddOp)
  term : Term

/-- Uses a complete operand in the open term. -/
def Context.supply (c : Context) (u : Unary) : Level where
  plus := c.plus
  sum := c.sum
  term :=
    match c.product with
    | none => .unary (c.negations.repeat .negate u)
    | some (t, op) => .mul t op (c.negations.repeat .negate u)

/-- The expression of a level whose last term is complete. -/
def Level.expr (l : Level) : Expr :=
  match l.sum with
  | none => .term l.term
  | some (e, op) => .add e op l.term

/-- Where the reading stands. `outer` holds the levels around the innermost open parenthesis,
innermost first. -/
inductive Frontier where
  | operand (context : Context) (outer : List Context)
  | operator (level : Level) (outer : List Context)

namespace Frontier

/-- Reads one lexeme. -/
def step : Frontier → Lexeme → Option Frontier
  | operand c outer, .plain (.number x) => some (operator (c.supply (.primary (.number x))) outer)
  | operand c outer, .plain (.add .minus) =>
    some (operand { c with negations := c.negations + 1 } outer)
  | operand c outer, .plain .opening => some (operand {} (c :: outer))
  | operand ⟨false, none, none, 0⟩ outer, .leadingPlus => some (operand { plus := true } outer)
  | operator l outer, .plain (.mul op) =>
    some (operand { plus := l.plus, sum := l.sum, product := some (l.term, op) } outer)
  | operator l outer, .plain (.add op) =>
    some (operand { plus := l.plus, sum := some (l.expr, op) } outer)
  | operator l outer, .percent => some (operator { l with term := .percent l.term } outer)
  | operator l (c :: outer), .plain .closing =>
    some (operator (c.supply (.primary (.group l.plus l.expr))) outer)
  | _, _ => none

/-- Reads lexemes in order. -/
def run (f : Frontier) : List Lexeme → Option Frontier
  | [] => some f
  | l :: ls => f.step l >>= fun f' ↦ f'.run ls

/-- Reading one part of a sequence after the other is reading all of it. -/
theorem run_append (f : Frontier) (ls ms : List Lexeme) :
    f.run (ls ++ ms) = f.run ls >>= fun f' ↦ f'.run ms := by
  induction ls generalizing f with
  | nil => rfl
  | cons l ls ih =>
    rw [List.cons_append, run, run]
    cases f.step l with
    | none => rfl
    | some f' => exact ih f'

/-- A reading without its trees. -/
def shape : Frontier → Shape
  | operand _ outer => .operand outer.length
  | operator _ outer => .operator outer.length

end Frontier

/-! ### What has been read -/

private def sumLexemes : Option (Expr × AddOp) → List Lexeme
  | none => []
  | some (e, op) => e.lexemes ++ [.plain (.add op)]

private def productLexemes : Option (Term × MulOp) → List Lexeme
  | none => []
  | some (t, op) => t.lexemes ++ [.plain (.mul op)]

private def Context.lexemes (c : Context) : List Lexeme :=
  plusLexemes c.plus ++ sumLexemes c.sum ++ productLexemes c.product ++
    List.replicate c.negations (.plain (.add .minus))

private def Level.lexemes (l : Level) : List Lexeme :=
  plusLexemes l.plus ++ sumLexemes l.sum ++ l.term.lexemes

private def outerLexemes : List Context → List Lexeme
  | [] => []
  | c :: outer => outerLexemes outer ++ c.lexemes ++ [.plain .opening]

private def Frontier.lexemes : Frontier → List Lexeme
  | operand c outer => outerLexemes outer ++ c.lexemes
  | operator l outer => outerLexemes outer ++ l.lexemes

private theorem lexemes_repeat_negate (n : Nat) (u : Unary) :
    (n.repeat Unary.negate u).lexemes = List.replicate n (.plain (.add .minus)) ++ u.lexemes := by
  induction n with
  | zero => rfl
  | succ n ih =>
    rw [Nat.repeat, Unary.lexemes, ih, List.replicate_succ, List.cons_append]

private theorem lexemes_supply (c : Context) (u : Unary) :
    (c.supply u).lexemes = c.lexemes ++ u.lexemes := by
  rcases c with ⟨plus, sum, product, n⟩
  cases product with
  | none => simp [Context.supply, Level.lexemes, Context.lexemes, productLexemes, Term.lexemes,
      lexemes_repeat_negate]
  | some m => simp [Context.supply, Level.lexemes, Context.lexemes, productLexemes, Term.lexemes,
      lexemes_repeat_negate]

private theorem lexemes_level_expr (l : Level) :
    plusLexemes l.plus ++ l.expr.lexemes = l.lexemes := by
  rcases l with ⟨plus, sum, term⟩
  cases sum with
  | none => simp [Level.expr, Level.lexemes, sumLexemes, Expr.lexemes]
  | some m => simp [Level.expr, Level.lexemes, sumLexemes, Expr.lexemes]

private theorem Frontier.lexemes_step {f f' : Frontier} {l : Lexeme} (h : f.step l = some f') :
    f'.lexemes = f.lexemes ++ [l] := by
  unfold Frontier.step at h
  split at h
  · next c outer x =>
    cases h
    simp [Frontier.lexemes, lexemes_supply, Unary.lexemes, Primary.lexemes]
  · next c outer =>
    cases h
    simp [Frontier.lexemes, Context.lexemes, List.replicate_succ']
  · next c outer =>
    cases h
    simp [Frontier.lexemes, Context.lexemes, outerLexemes, plusLexemes, sumLexemes, productLexemes]
  · next outer =>
    cases h
    simp [Frontier.lexemes, Context.lexemes, plusLexemes, sumLexemes, productLexemes]
  · next l outer op =>
    cases h
    simp [Frontier.lexemes, Context.lexemes, Level.lexemes, productLexemes]
  · next l outer op =>
    cases h
    simp [Frontier.lexemes, Context.lexemes, ← lexemes_level_expr, sumLexemes, productLexemes]
  · next l outer =>
    cases h
    simp [Frontier.lexemes, Level.lexemes, Term.lexemes]
  · next l c outer =>
    cases h
    rw [Frontier.lexemes, Frontier.lexemes, lexemes_supply, Unary.lexemes, Primary.lexemes,
      lexemes_level_expr]
    simp [outerLexemes]
  · cases h

private theorem Frontier.lexemes_run {f f' : Frontier} {ls : List Lexeme}
    (h : f.run ls = some f') : f'.lexemes = f.lexemes ++ ls := by
  induction ls generalizing f with
  | nil =>
    cases h
    rw [List.append_nil]
  | cons l ls ih =>
    rw [Frontier.run] at h
    obtain ⟨f₁, hstep, hrun⟩ := Option.bind_eq_some_iff.mp h
    rw [ih hrun, lexemes_step hstep, List.append_assoc, List.singleton_append]

/-! ### Reading what a tree derives -/

private theorem supply_negate (c : Context) (u : Unary) :
    ({ c with negations := c.negations + 1 } : Context).supply u = c.supply (.negate u) := by
  have h (n : Nat) : (n + 1).repeat Unary.negate u = n.repeat Unary.negate (.negate u) := by
    induction n with
    | zero => rfl
    | succ n ih => rw [Nat.repeat, ih, Nat.repeat]
  rcases c with ⟨plus, sum, product, n⟩
  simp only [Context.supply, h]

mutual

/-- Reading what an expression derives gives the expression. -/
theorem Expr.run_lexemes (e : Expr) (plus : Bool) (outer : List Context) :
    ∃ l : Level, (Frontier.operand { plus } outer).run e.lexemes = some (.operator l outer) ∧
      l.plus = plus ∧ l.expr = e := by
  cases e with
  | term t =>
    exact ⟨⟨plus, none, t⟩, t.run_lexemes plus none outer, rfl, rfl⟩
  | add e op t =>
    obtain ⟨l, hrun, hplus, hexpr⟩ := e.run_lexemes plus outer
    refine ⟨⟨plus, some (e, op), t⟩, ?_, rfl, rfl⟩
    rw [Expr.lexemes, Frontier.run_append, hrun, Option.bind_eq_bind, Option.bind_some,
      Frontier.run, Frontier.step, hplus, hexpr]
    exact t.run_lexemes plus (some (e, op)) outer

/-- Reading what a term derives gives the term. -/
theorem Term.run_lexemes (t : Term) (plus : Bool) (sum : Option (Expr × AddOp))
    (outer : List Context) :
    (Frontier.operand { plus, sum } outer).run t.lexemes =
      some (.operator ⟨plus, sum, t⟩ outer) := by
  cases t with
  | unary u => exact u.run_lexemes { plus, sum } outer
  | mul t op u =>
    rw [Term.lexemes, Frontier.run_append, t.run_lexemes plus sum outer, Option.bind_eq_bind,
      Option.bind_some, Frontier.run, Frontier.step]
    exact u.run_lexemes { plus, sum, product := some (t, op) } outer
  | percent t =>
    rw [Term.lexemes, Frontier.run_append, t.run_lexemes plus sum outer]
    rfl

/-- Reading what an operand derives supplies the operand. -/
theorem Unary.run_lexemes (u : Unary) (c : Context) (outer : List Context) :
    (Frontier.operand c outer).run u.lexemes = some (.operator (c.supply u) outer) := by
  cases u with
  | negate u =>
    rw [Unary.lexemes, Frontier.run, Frontier.step, Option.bind_eq_bind, Option.bind_some,
      u.run_lexemes, supply_negate]
  | primary p => exact p.run_lexemes c outer

/-- Reading what an operand derives supplies the operand. -/
theorem Primary.run_lexemes (p : Primary) (c : Context) (outer : List Context) :
    (Frontier.operand c outer).run p.lexemes = some (.operator (c.supply (.primary p)) outer) := by
  cases p with
  | number x => rfl
  | group plus e =>
    have hplus : (Frontier.operand {} (c :: outer)).run (plusLexemes plus) =
        some (.operand { plus } (c :: outer)) := by
      cases plus <;> rfl
    obtain ⟨l, hrun, hl, hexpr⟩ := e.run_lexemes plus (c :: outer)
    rw [Primary.lexemes, List.cons_append, Frontier.run, Frontier.step, Option.bind_eq_bind,
      Option.bind_some, List.append_assoc, Frontier.run_append, hplus, Option.bind_eq_bind,
      Option.bind_some, Frontier.run_append, hrun, ← hl, ← hexpr]
    rfl

end

/-- The sentence that derives a sequence of lexemes. -/
def Sentence.parse? (ls : List Lexeme) : Option Sentence :=
  match (Frontier.operand {} []).run ls with
  | some (.operator l []) => some ⟨l.plus, l.expr⟩
  | _ => none

/-- A sequence has at most one derivation, and it is found. -/
theorem Sentence.parse?_eq_some_iff {ls : List Lexeme} {s : Sentence} :
    parse? ls = some s ↔ s.lexemes = ls := by
  constructor
  · intro h
    unfold parse? at h
    split at h
    · next l hrun =>
      cases h
      have hl := Frontier.lexemes_run hrun
      rw [Sentence.lexemes, lexemes_level_expr]
      simpa [Frontier.lexemes, Context.lexemes, outerLexemes, plusLexemes, sumLexemes,
        productLexemes] using hl
    · cases h
  · rintro rfl
    obtain ⟨plus, e⟩ := s
    have hplus : (Frontier.operand {} []).run (plusLexemes plus) =
        some (.operand { plus } []) := by
      cases plus <;> rfl
    obtain ⟨l, hrun, hl, hexpr⟩ := e.run_lexemes plus []
    rw [parse?, Sentence.lexemes, Frontier.run_append, hplus, Option.bind_eq_bind,
      Option.bind_some, hrun, ← hl, ← hexpr]

/-! ### Every complete sequence has a derivation -/

/-- Whether plus signs that mean nothing stand only at the beginning, if that is `fresh`, and right
after opening parentheses. -/
def plusPlaced : (fresh : Bool) → List Lexeme → Bool
  | _, [] => true
  | fresh, .leadingPlus :: ls => fresh && plusPlaced false ls
  | _, l :: ls => plusPlaced (l == .plain .opening) ls

/-- Where a plus sign may stand there may also stand none. -/
theorem plusPlaced_mono {fresh : Bool} {ls : List Lexeme} (h : plusPlaced false ls) :
    plusPlaced fresh ls := by
  cases ls with
  | nil => rfl
  | cons l ls =>
    cases l with
    | leadingPlus => cases h
    | percent => exact h
    | plain l => exact h

private theorem Frontier.exists_step_plain {f : Frontier} {l : Expression.Lexeme} {s : Shape}
    (h : f.shape.step l = some s) :
    ∃ f', f.step (.plain l) = some f' ∧ f'.shape = s ∧
      (l = .opening → ∃ outer, f' = .operand {} outer) := by
  cases f with
  | operand c outer =>
    cases l with
    | number x => cases h; exact ⟨_, rfl, rfl, by simp⟩
    | add op =>
      cases op with
      | plus => cases h
      | minus => cases h; exact ⟨_, rfl, rfl, by simp⟩
    | mul op => cases h
    | opening => cases h; exact ⟨_, rfl, rfl, fun _ ↦ ⟨_, rfl⟩⟩
    | closing => cases h
  | operator d outer =>
    cases l with
    | number x => cases outer <;> cases h
    | add op => cases h; exact ⟨_, rfl, rfl, by simp⟩
    | mul op => cases h; exact ⟨_, rfl, rfl, by simp⟩
    | opening => cases outer <;> cases h
    | closing =>
      cases outer with
      | nil => cases h
      | cons c outer => cases h; exact ⟨_, rfl, rfl, by simp⟩

private theorem Frontier.exists_step_percent {f : Frontier} {s : Shape}
    (h : f.shape.run Lexeme.percent.expand = some s) :
    ∃ f', f.step .percent = some f' ∧ f'.shape = s := by
  cases f with
  | operand c outer => cases h
  | operator d outer => cases h; exact ⟨_, rfl, rfl⟩

/-- Where the shape admits the evaluator's lexemes, those on the display are read. -/
private theorem Frontier.exists_run {f : Frontier} {ls : List Lexeme} {s : Shape} {fresh : Bool}
    (hplus : plusPlaced fresh ls) (hfresh : fresh → ∃ outer, f = .operand {} outer)
    (h : f.shape.run (ls.flatMap Lexeme.expand) = some s) :
    ∃ f', f.run ls = some f' ∧ f'.shape = s := by
  induction ls generalizing f fresh with
  | nil => exact ⟨f, rfl, Option.some.inj h⟩
  | cons l ls ih =>
    rw [List.flatMap_cons, Shape.run_append] at h
    rw [Frontier.run]
    cases l with
    | plain l =>
      obtain ⟨s₁, hs, hrun⟩ := Option.bind_eq_some_iff.mp h
      obtain ⟨s₂, hstep, hs₂⟩ := Option.bind_eq_some_iff.mp hs
      cases hs₂
      obtain ⟨f', hf', rfl, hopen⟩ := exists_step_plain hstep
      rw [hf']
      exact ih hplus (by simpa using hopen) hrun
    | percent =>
      obtain ⟨s₁, hs, hrun⟩ := Option.bind_eq_some_iff.mp h
      obtain ⟨f', hf', rfl⟩ := exists_step_percent hs
      rw [hf']
      exact ih hplus (by simp) hrun
    | leadingPlus =>
      rw [plusPlaced, Bool.and_eq_true] at hplus
      obtain ⟨outer, rfl⟩ := hfresh hplus.1
      exact ih hplus.2 (by simp) h

/-- A sequence whose shape is complete has a derivation. -/
theorem Sentence.exists_lexemes_eq {ls : List Lexeme} (hplus : plusPlaced true ls)
    (h : (Shape.operand 0).run (ls.flatMap Lexeme.expand) = some (.operator 0)) :
    ∃ s : Sentence, s.lexemes = ls := by
  obtain ⟨f, hrun, hshape⟩ :=
    Frontier.exists_run (f := .operand {} []) hplus (fun _ ↦ ⟨[], rfl⟩) h
  cases f with
  | operand c outer => cases hshape
  | operator l outer =>
    cases outer with
    | nil => exact ⟨⟨l.plus, l.expr⟩, parse?_eq_some_iff.mp (by rw [parse?, hrun])⟩
    | cons c outer => cases hshape

end DeskCalculator.Display
