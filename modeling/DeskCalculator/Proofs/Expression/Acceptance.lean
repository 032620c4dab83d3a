import DeskCalculator.Proofs.Expression.Derivation
import DeskCalculator.Proofs.Expression.Descent
import DeskCalculator.Proofs.Expression.Lexing
import DeskCalculator.Proofs.Expression.Value
import Mathlib.Data.List.Basic

/-!
# What the evaluator accepts

A text evaluates exactly if its lexemes have a derivation with a finite value. It has at most one
derivation, and the grammar can be read by recursive descent in a bounded depth.
-/

namespace DeskCalculator.Expression

/-- What a text with lexemes evaluates to depends on its tokens alone. -/
theorem Lexes.exists_evaluate_eq {cs : List Char} {ls : List Lexeme} (h : Lexes cs ls) :
    ∃ ts : List Token, ts.map Token.lexeme = ls ∧ evaluate cs = evaluateTokens ts := by
  obtain ⟨ts, hts, hls⟩ := exists_tokenize_iff.mpr h
  refine ⟨ts, hls, ?_⟩
  rw [evaluate, hts]
  rfl

/-- A text whose lexemes have a derivation evaluates to its value, if that is finite. -/
theorem Lexes.evaluate_eq {cs : List Char} {e : Expr} (h : Lexes cs e.lexemes) :
    evaluate cs = e.value >>= finite := by
  obtain ⟨ts, hts, heq⟩ := h.exists_evaluate_eq
  rw [heq, evaluateTokens_eq hts]

/-- A text that evaluates has lexemes. -/
theorem exists_lexes_of_evaluate {cs : List Char} {v : Float} (h : evaluate cs = .ok v) :
    ∃ ls, Lexes cs ls := by
  cases hts : tokenize cs with
  | error e =>
    rw [evaluate, hts] at h
    cases h
  | ok ts => exact ⟨_, exists_tokenize_iff.mp ⟨ts, hts, rfl⟩⟩

/-- A text evaluates to `v` exactly if its lexemes have a derivation with the finite value `v`. -/
theorem evaluate_eq_ok_iff {cs : List Char} {v : Float} :
    evaluate cs = .ok v ↔ ∃ e : Expr, Lexes cs e.lexemes ∧ e.value = .ok v ∧ v.isFinite := by
  constructor
  · intro h
    obtain ⟨ls, hls⟩ := exists_lexes_of_evaluate h
    obtain ⟨ts, rfl, heq⟩ := hls.exists_evaluate_eq
    obtain ⟨e, he, hvalue⟩ := evaluateTokens_eq_ok_iff.mp (heq ▸ h)
    rw [← he] at hls
    exact ⟨e, hls, hvalue⟩
  · rintro ⟨e, hls, hvalue⟩
    obtain ⟨ts, hts, heq⟩ := hls.exists_evaluate_eq
    rw [heq]
    exact evaluateTokens_eq_ok_iff.mpr ⟨e, hts.symm, hvalue⟩

/-- A text evaluates to `v` exactly if its lexemes derive from the grammar and the derivation has
the finite value `v`. The derivation is the only one, and reading the grammar by recursive descent
ends on every sequence of tokens, within a depth of four calls for each token and four more, with
the result of the evaluation. -/
theorem evaluate_accepts_grammar (cs : List Char) (v : Float) :
    (evaluate cs = .ok v ↔ ∃ e : Expr, Lexes cs e.lexemes ∧ e.value = .ok v ∧ v.isFinite) ∧
      (∀ e f : Expr, Lexes cs e.lexemes → Lexes cs f.lexemes → e = f) ∧
      ∀ (ts : List Token) (extra : Nat),
        Descent.evaluate (4 * ts.length + 4 + extra) ts = Descent.done (evaluateTokens ts) := by
  refine ⟨evaluate_eq_ok_iff, ?_, ?_⟩
  · intro e f he hf
    exact Expr.eq_of_lexemes_eq (he.unique hf)
  · intro ts extra
    exact Descent.evaluate_eq (Nat.le_add_right _ _)

/-- All four operations, a minus sign before a number, parentheses, both blanks and points at either
end of a number: the operators of one kind are taken from left to right. The derivation of a
quotient by zero has no value. -/
theorem evaluate_accepts_mixed_expression :
    let mixed := " 1.5*(7-4)/ -0.5/2.+.25\t-1".toList
    (evaluate mixed = .ok (-5.25) ∧
      ∃ e : Expr, Lexes mixed e.lexemes ∧ e.value = .ok (-5.25) ∧ (-5.25 : Float).isFinite) ∧
    evaluate "6/(2-2)".toList = .error .nonFinite ∧
      ∀ e : Expr, Lexes "6/(2-2)".toList e.lexemes → ¬ ∃ v, e.value = .ok v ∧ v.isFinite := by
  intro mixed
  have hmixed : evaluate mixed = .ok (-5.25) := by decide +kernel
  have hquotient : evaluate "6/(2-2)".toList = .error .nonFinite := by decide +kernel
  refine ⟨⟨hmixed, (evaluate_accepts_grammar mixed _).1.mp hmixed⟩, hquotient, ?_⟩
  rintro e hlexes ⟨v, hvalue⟩
  have hv := (evaluate_accepts_grammar _ v).1.mpr ⟨e, hlexes, hvalue⟩
  rw [hquotient] at hv
  cases hv

end DeskCalculator.Expression
