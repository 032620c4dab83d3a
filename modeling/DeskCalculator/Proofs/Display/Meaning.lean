import DeskCalculator.Proofs.Display.Lexing
import DeskCalculator.Proofs.Expression.Acceptance

/-!
# What the display means

A display text computes exactly if its lexemes derive from the display grammar with a finite value,
unless a percent sign runs into a number.
-/

namespace DeskCalculator.Display

open Expression (evaluate evaluateTokens compute plain relabel CalcError EvalError)

/-- The evaluator's derivation of a sentence derives the evaluator's text. -/
theorem Sentence.lexemes_plain (s : Sentence) :
    s.expr.plain.lexemes = s.lexemes.flatMap Lexeme.expand := by
  rw [Sentence.lexemes, List.flatMap_append, flatMap_expand_plusLexemes, List.nil_append,
    Expr.lexemes_plain]

/-- A computation gives a number exactly if the evaluator does. -/
theorem compute_eq_ok_iff_evaluate {cs : List Char} {v : Float} :
    compute cs = .ok v ↔ evaluate (plain cs) = .ok v := by
  unfold compute
  cases evaluate (plain cs) with
  | error e => simp [Except.mapError]
  | ok x => simp [Except.mapError]

theorem isFinite_of_compute {cs : List Char} {v : Float} (h : compute cs = .ok v) : v.isFinite := by
  rw [compute_eq_ok_iff_evaluate, Expression.evaluate_eq_ok_iff] at h
  obtain ⟨_, _, _, hfinite⟩ := h
  exact hfinite

/-- The evaluator's text of a sentence evaluates to the sentence's value, if that is finite. -/
theorem evaluate_plain_eq_ok_iff {cs : List Char} (hp : PercentsApart cs) {s : Sentence}
    (h : Lexes true cs s.lexemes) {v : Float} :
    evaluate (plain cs) = .ok v ↔ s.value = .ok v ∧ v.isFinite := by
  have hplain : Expression.Lexes (plain cs) s.expr.plain.lexemes := by
    rw [Sentence.lexemes_plain]
    exact h.lexes_plainAfter rfl hp
  rw [Expression.evaluate_eq_ok_iff, Sentence.value, ← Expr.value_plain]
  constructor
  · rintro ⟨e, he, hvalue⟩
    rwa [Expression.Expr.eq_of_lexemes_eq (he.unique hplain)] at hvalue
  · intro hvalue
    exact ⟨_, hplain, hvalue⟩

/-- A text that evaluates is the evaluator's text of a sentence. -/
private theorem exists_sentence_of_evaluate {cs : List Char} (hp : PercentsApart cs) {v : Float}
    (h : evaluate (plain cs) = .ok v) : ∃ s : Sentence, Lexes true cs s.lexemes := by
  obtain ⟨ms, hms⟩ := Expression.exists_lexes_of_evaluate h
  obtain ⟨ls, hls, rfl⟩ := exists_lexes_of_plainAfter hms hp
  obtain ⟨ts, hts, heq⟩ := hms.exists_evaluate_eq
  have hshape := Expression.shape_of_evaluateTokens (heq ▸ h)
  rw [hts] at hshape
  obtain ⟨s, rfl⟩ := Sentence.exists_lexemes_eq hls.plusPlaced hshape
  exact ⟨s, hls⟩

/-- A display text in which no percent sign runs into a number computes to `v` exactly if its
lexemes derive from the display grammar with the finite value `v`. -/
theorem compute_eq_ok_iff_derives {cs : List Char} (hp : PercentsApart cs) (v : Float) :
    compute cs = .ok v ↔
      ∃ s : Sentence, Lexes true cs s.lexemes ∧ s.value = .ok v ∧ v.isFinite := by
  rw [compute_eq_ok_iff_evaluate]
  constructor
  · intro h
    obtain ⟨s, hs⟩ := exists_sentence_of_evaluate hp h
    exact ⟨s, hs, (evaluate_plain_eq_ok_iff hp hs).mp h⟩
  · rintro ⟨s, hs, hvalue⟩
    exact (evaluate_plain_eq_ok_iff hp hs).mpr hvalue

/-- A percent sign takes a quotient in parentheses and then the product before it; a plus sign
stands inside parentheses, and a blank before a percent sign. -/
theorem compute_percent_of_product :
    PercentsApart "-(+5)×(2÷10 %)%+1".toList ∧ compute "-(+5)×(2÷10 %)%+1".toList = .ok 0.9999 ∧
      ∃ s : Sentence, Lexes true "-(+5)×(2÷10 %)%+1".toList s.lexemes ∧
        s.value = .ok 0.9999 ∧ (0.9999 : Float).isFinite := by
  have hp : PercentsApart "-(+5)×(2÷10 %)%+1".toList := by decide
  have hvalue : compute "-(+5)×(2÷10 %)%+1".toList = .ok 0.9999 := by decide +kernel
  exact ⟨hp, hvalue, (compute_eq_ok_iff_derives hp 0.9999).mp hvalue⟩

/-- Finite steps alone are not enough: a number too large to be represented is a derivation without
any step, and its value is infinite. -/
theorem not_computes_infinite_literal :
    ¬ ∀ (cs : List Char) (v : Float), PercentsApart cs →
      (compute cs = .ok v ↔ ∃ s : Sentence, Lexes true cs s.lexemes ∧ s.value = .ok v) := by
  intro h
  have hrun : ∀ c ∈ List.replicate 400 '9', Expression.isLiteralChar c := by
    intro c hc
    rw [List.eq_of_mem_replicate hc]
    rfl
  have hlexes : Lexes true (List.replicate 400 '9' ++ [])
      [.plain (.number (Expression.numeralValue (List.replicate 400 '9')))] := by
    refine .number hrun ⟨'9', by decide, rfl⟩ ?_ ?_ .nil
    · rw [List.count_replicate]
      decide
    · intro c hc
      cases hc
  rw [List.append_nil] at hlexes
  have hp : PercentsApart (List.replicate 400 '9') := by decide +kernel
  have hcompute := (h _ _ hp).mpr ⟨⟨false, .term (.unary (.primary (.number _)))⟩, hlexes, rfl⟩
  have hfinite := isFinite_of_compute hcompute
  have hinfinite : (Expression.numeralValue (List.replicate 400 '9')).isFinite = false := by
    decide +kernel
  rw [hinfinite] at hfinite
  cases hfinite

end DeskCalculator.Display
