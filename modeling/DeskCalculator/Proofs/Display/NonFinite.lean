import DeskCalculator.Proofs.Diagnosis.Repair
import DeskCalculator.Proofs.Expression.NonFinite

/-!
# Misplaced percent signs behind a result that is not finite

A percent sign without an operand is a fault. It is reported as one unless what stands before it
comes to a result that is not finite, which then hides it.
-/

namespace DeskCalculator.Display

open Diagnosis (Problem solid?)
open Expression (compute evaluate finite hasMisplacedPercent isMisplacedPercent
  isOperatorChar plain plainAfter relabel)

/-- Whether no operand stands at the end of a text, blanks passed over. -/
def LacksOperand (before : List Char) : Prop :=
  (solid? before.reverse).all fun c ↦ isOperatorChar c || c == '('

/-- A percent sign is misplaced where it lacks its operand. -/
private theorem hasMisplacedPercent_iff {cs : List Char} :
    hasMisplacedPercent cs ↔ ∃ before after, cs = before ++ '%' :: after ∧ LacksOperand before := by
  have heq : hasMisplacedPercent cs = (Problem.misplacedPercent.find cs).isSome :=
    Diagnosis.hasMisplacedPercentAfter_eq [] cs
  rw [heq, Problem.isSome_find_iff]
  constructor
  · rintro ⟨before, c, after, rfl, hwidth⟩
    have hmisplaced : isMisplacedPercent (solid? before.reverse) c := by
      rw [← Bool.not_eq_false]
      intro hplaced
      rw [Problem.widthAt, hplaced] at hwidth
      cases hwidth
    rw [isMisplacedPercent, Bool.and_eq_true, beq_iff_eq] at hmisplaced
    obtain ⟨rfl, hlacks⟩ := hmisplaced
    exact ⟨before, after, rfl, hlacks⟩
  · rintro ⟨before, after, rfl, hlacks⟩
    have hmisplaced : isMisplacedPercent (solid? before.reverse) '%' := by
      rw [isMisplacedPercent, Bool.and_eq_true]
      exact ⟨rfl, hlacks⟩
    refine ⟨before, '%', after, rfl, ?_⟩
    rw [Problem.widthAt, if_pos hmisplaced]
    rfl

/-- A text with a misplaced percent sign is malformed, or a result in it is not finite. -/
private theorem compute_of_hasMisplacedPercent {cs : List Char} (h : hasMisplacedPercent cs) :
    (compute cs = .error .malformedPercentage ∧ evaluate (plain cs) ≠ .error .nonFinite) ∨
      (compute cs = .error (.invalidExpression .nonFinite) ∧
        evaluate (plain cs) = .error .nonFinite) := by
  obtain ⟨before, after, heq, hlacks⟩ := hasMisplacedPercent_iff.mp h
  rw [compute]
  cases hvalue : evaluate (plain cs) with
  | ok x =>
    have hleads := leads_of_evaluate hvalue
    rw [heq] at hleads
    exact absurd hleads (not_leads_of_operand (d := '/') hlacks rfl rfl fun _ ↦ rfl)
  | error err =>
    rw [Except.mapError, relabel, h, Bool.and_true]
    cases hsyntax : err.isSyntax with
    | true =>
      refine .inl ⟨rfl, ?_⟩
      intro heq
      cases heq
      cases hsyntax
    | false =>
      right
      cases err with
      | nonFinite => exact ⟨rfl, rfl⟩
      | empty => cases hsyntax
      | unexpectedEnd => cases hsyntax
      | unexpectedToken found pos => cases hsyntax
      | unknownSymbol symbol pos => cases hsyntax
      | invalidNumber literal pos => cases hsyntax

/-- A misplaced percent sign is hidden exactly if the text has lexemes and what stands before the
sign comes to a result that is not finite. -/
private theorem evaluate_of_misplacedPercent {before after : List Char} (h : LacksOperand before) :
    evaluate (plain (before ++ '%' :: after)) = .error .nonFinite ↔
      (∃ ls, Expression.Lexes (plain (before ++ '%' :: after)) ls) ∧
        evaluate (plain before) = .error .nonFinite := by
  rw [plain_append, plainAfter]
  refine Expression.evaluate_append_mul rfl fun ls q hls hrun ↦ ?_
  exact Leads.operand_of_isOperatorChar ⟨ls, hls, hrun⟩ h

/-- A text that comes to a result that is not finite has lexemes, and a beginning of them is a
sentence without a finite value once what is open there is closed; what follows can be anything. A
text that is a sentence has no fault. A text with a misplaced percent sign is reported as malformed,
or as not finite: as the latter exactly if it has lexemes and what stands before the sign, any of
them, comes to a result that is not finite. -/
theorem nonFinite_before_faults (cs : List Char) :
    (evaluate cs = .error .nonFinite →
      ∃ ls, Expression.Lexes cs ls ∧ ∃ ms n, ms <+: ls ∧
        ∃ e : Expression.Expr, e.lexemes = ms ++ List.replicate n .closing ∧
          e.value >>= finite = .error .nonFinite) ∧
    (∀ e : Expression.Expr, Expression.Lexes cs e.lexemes →
      ∀ err, evaluate cs = .error err → err.isSyntax = false) ∧
    (hasMisplacedPercent cs →
      (compute cs = .error .malformedPercentage ∨
        compute cs = .error (.invalidExpression .nonFinite)) ∧
      ∀ before after, cs = before ++ '%' :: after → LacksOperand before →
        (compute cs = .error (.invalidExpression .nonFinite) ↔
          (∃ ls, Expression.Lexes (plain cs) ls) ∧ evaluate (plain before) = .error .nonFinite)) := by
  refine ⟨Expression.exists_sentence_of_nonFinite,
    fun e he err herr ↦ Expression.isSyntax_eq_false_of_sentence he herr, fun h ↦ ?_⟩
  have hcases := compute_of_hasMisplacedPercent h
  refine ⟨hcases.imp And.left And.left, ?_⟩
  rintro before after rfl hlacks
  rw [← evaluate_of_misplacedPercent hlacks]
  rcases hcases with ⟨hcompute, hvalue⟩ | ⟨hcompute, hvalue⟩
  · simp [hcompute, hvalue]
  · simp [hcompute, hvalue]

/-- A division by zero comes before a missing operand. On the display it is hidden by a percent sign
right after an opening parenthesis before it, and not by percent signs that come after it. -/
theorem nonFinite_before_two_percents :
    evaluate "2*(8/0-)".toList = .error .nonFinite ∧
      (∃ ls, Expression.Lexes "2*(8/0-)".toList ls ∧ ∃ ms n, ms <+: ls ∧
        ∃ e : Expression.Expr, e.lexemes = ms ++ List.replicate n .closing ∧
          e.value >>= finite = .error .nonFinite) ∧
      hasMisplacedPercent "(%5×(8÷0- %".toList ∧
      compute "(%5×(8÷0- %".toList = .error .malformedPercentage ∧
      evaluate (plain "(".toList) ≠ .error .nonFinite ∧
      hasMisplacedPercent "5×(8÷0- %(%".toList ∧
      compute "5×(8÷0- %(%".toList = .error (.invalidExpression .nonFinite) ∧
      evaluate (plain "5×(8÷0- ".toList) = .error .nonFinite := by
  have hfirst : evaluate "2*(8/0-)".toList = .error .nonFinite := by decide +kernel
  have hplaced : hasMisplacedPercent "(%5×(8÷0- %".toList := by decide +kernel
  have hmalformed : compute "(%5×(8÷0- %".toList = .error .malformedPercentage := by decide +kernel
  have hhidden : hasMisplacedPercent "5×(8÷0- %(%".toList := by decide +kernel
  have hnonFinite : compute "5×(8÷0- %(%".toList = .error (.invalidExpression .nonFinite) := by
    decide +kernel
  have hbefore := ((nonFinite_before_faults "5×(8÷0- %(%".toList).2.2 hhidden).2
    "5×(8÷0- ".toList "(%".toList (by decide) (by unfold LacksOperand; decide)
  refine ⟨hfirst, (nonFinite_before_faults _).1 hfirst, hplaced, hmalformed, by decide +kernel,
    hhidden, hnonFinite, (hbefore.mp hnonFinite).2⟩

/-- A division by zero hides that the text ends with an operator, and a percent sign after it. -/
theorem nonFinite_of_malformed :
    (evaluate "1/0+".toList = .error .nonFinite ∧
      ¬ ∃ e : Expression.Expr, Expression.Lexes "1/0+".toList e.lexemes) ∧
    hasMisplacedPercent "1÷0+%".toList ∧
      compute "1÷0+%".toList = .error (.invalidExpression .nonFinite) := by
  refine ⟨⟨by decide +kernel, ?_⟩, by decide +kernel, by decide +kernel⟩
  rintro ⟨e, he⟩
  obtain ⟨ts, hts, hls⟩ := Expression.exists_tokenize_iff.mpr he
  have htokens : Expression.tokenize "1/0+".toList =
      .ok [⟨.number 1, 0⟩, ⟨.mul .divide, 1⟩, ⟨.number 0, 2⟩, ⟨.add .plus, 3⟩] := by
    decide +kernel
  rw [htokens] at hts
  cases hts
  have hshape := e.shape_run 0
  rw [← hls] at hshape
  cases hshape

end DeskCalculator.Display
