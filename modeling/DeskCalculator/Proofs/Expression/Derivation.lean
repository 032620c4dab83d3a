import DeskCalculator.Proofs.Display.Parse

/-!
# Derivations of complete sequences

The evaluator's grammar is the display grammar without percent signs and without plus signs at the
beginning, so what is known about derivations there holds here: a sequence whose shape is complete
has a derivation, and no sequence has two.
-/

namespace DeskCalculator.Expression

mutual

/-- The same expression in the display grammar. -/
def Expr.onDisplay : Expr → Display.Expr
  | .term t => .term t.onDisplay
  | .add e op t => .add e.onDisplay op t.onDisplay

/-- The same term in the display grammar. -/
def Term.onDisplay : Term → Display.Term
  | .unary u => .unary u.onDisplay
  | .mul t op u => .mul t.onDisplay op u.onDisplay

/-- The same operand in the display grammar. -/
def Unary.onDisplay : Unary → Display.Unary
  | .negate u => .negate u.onDisplay
  | .primary p => .primary p.onDisplay

/-- The same operand in the display grammar. -/
def Primary.onDisplay : Primary → Display.Primary
  | .number x => .number x
  | .group e => .group false e.onDisplay

end

mutual

/-- On the display stands what the evaluator reads. -/
theorem Expr.lexemes_onDisplay (e : Expr) : e.onDisplay.lexemes = e.lexemes.map .plain := by
  cases e with
  | term t =>
    rw [Expr.onDisplay, Display.Expr.lexemes, Expr.lexemes]
    exact t.lexemes_onDisplay
  | add e op t =>
    rw [Expr.onDisplay, Display.Expr.lexemes, Expr.lexemes, e.lexemes_onDisplay,
      t.lexemes_onDisplay, List.map_append, List.map_cons]

/-- On the display stands what the evaluator reads. -/
theorem Term.lexemes_onDisplay (t : Term) : t.onDisplay.lexemes = t.lexemes.map .plain := by
  cases t with
  | unary u =>
    rw [Term.onDisplay, Display.Term.lexemes, Term.lexemes]
    exact u.lexemes_onDisplay
  | mul t op u =>
    rw [Term.onDisplay, Display.Term.lexemes, Term.lexemes, t.lexemes_onDisplay,
      u.lexemes_onDisplay, List.map_append, List.map_cons]

/-- On the display stands what the evaluator reads. -/
theorem Unary.lexemes_onDisplay (u : Unary) : u.onDisplay.lexemes = u.lexemes.map .plain := by
  cases u with
  | negate u =>
    rw [Unary.onDisplay, Display.Unary.lexemes, Unary.lexemes, u.lexemes_onDisplay, List.map_cons]
  | primary p =>
    rw [Unary.onDisplay, Display.Unary.lexemes, Unary.lexemes]
    exact p.lexemes_onDisplay

/-- On the display stands what the evaluator reads. -/
theorem Primary.lexemes_onDisplay (p : Primary) : p.onDisplay.lexemes = p.lexemes.map .plain := by
  cases p with
  | number x => rfl
  | group e =>
    rw [Primary.onDisplay, Display.Primary.lexemes, Primary.lexemes, e.lexemes_onDisplay,
      List.map_append, List.map_cons]
    rfl

end

mutual

/-- The evaluator's derivation is found again in that of the display grammar. -/
theorem Expr.plain_onDisplay (e : Expr) : e.onDisplay.plain = e := by
  cases e with
  | term t => rw [Expr.onDisplay, Display.Expr.plain, t.plain_onDisplay]
  | add e op t =>
    rw [Expr.onDisplay, Display.Expr.plain, e.plain_onDisplay, t.plain_onDisplay]

/-- The evaluator's derivation is found again in that of the display grammar. -/
theorem Term.plain_onDisplay (t : Term) : t.onDisplay.plain = t := by
  cases t with
  | unary u => rw [Term.onDisplay, Display.Term.plain, u.plain_onDisplay]
  | mul t op u =>
    rw [Term.onDisplay, Display.Term.plain, t.plain_onDisplay, u.plain_onDisplay]

/-- The evaluator's derivation is found again in that of the display grammar. -/
theorem Unary.plain_onDisplay (u : Unary) : u.onDisplay.plain = u := by
  cases u with
  | negate u => rw [Unary.onDisplay, Display.Unary.plain, u.plain_onDisplay]
  | primary p => rw [Unary.onDisplay, Display.Unary.plain, p.plain_onDisplay]

/-- The evaluator's derivation is found again in that of the display grammar. -/
theorem Primary.plain_onDisplay (p : Primary) : p.onDisplay.plain = p := by
  cases p with
  | number x => rfl
  | group e => rw [Primary.onDisplay, Display.Primary.plain, e.plain_onDisplay]

end

/-- No sequence has two derivations. -/
theorem Expr.eq_of_lexemes_eq {e f : Expr} (h : e.lexemes = f.lexemes) : e = f := by
  have hd : (⟨false, e.onDisplay⟩ : Display.Sentence).lexemes =
      (⟨false, f.onDisplay⟩ : Display.Sentence).lexemes := by
    rw [Display.Sentence.lexemes, Display.Sentence.lexemes, e.lexemes_onDisplay,
      f.lexemes_onDisplay, h]
  have hs := Display.Sentence.parse?_eq_some_iff.mpr hd
  rw [Display.Sentence.parse?_eq_some_iff.mpr rfl] at hs
  injection hs with hs
  injection hs with _ hs
  rw [← e.plain_onDisplay, ← f.plain_onDisplay, hs]

/-- What the evaluator reads stands for itself on the display. -/
theorem flatMap_expand_map_plain (ls : List Lexeme) :
    (ls.map Display.Lexeme.plain).flatMap Display.Lexeme.expand = ls := by
  induction ls with
  | nil => rfl
  | cons l ls ih => rw [List.map_cons, List.flatMap_cons, ih, Display.Lexeme.expand,
      List.singleton_append]

private theorem plusPlaced_map_plain (fresh : Bool) (ls : List Lexeme) :
    Display.plusPlaced fresh (ls.map Display.Lexeme.plain) := by
  induction ls generalizing fresh with
  | nil => rfl
  | cons l ls ih => exact ih _

/-- A sequence whose shape is complete has a derivation. -/
theorem Expr.exists_lexemes_eq {ls : List Lexeme}
    (h : (Shape.operand 0).run ls = some (.operator 0)) : ∃ e : Expr, e.lexemes = ls := by
  rw [← flatMap_expand_map_plain ls] at h
  obtain ⟨s, hs⟩ := Display.Sentence.exists_lexemes_eq (plusPlaced_map_plain true ls) h
  refine ⟨s.expr.plain, ?_⟩
  rw [s.expr.lexemes_plain, ← flatMap_expand_map_plain ls, ← hs, Display.Sentence.lexemes,
    List.flatMap_append, Display.flatMap_expand_plusLexemes, List.nil_append]

end DeskCalculator.Expression
