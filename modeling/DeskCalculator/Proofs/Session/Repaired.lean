import DeskCalculator.Proofs.Diagnosis.Kept
import DeskCalculator.Proofs.Display.Meaning
import DeskCalculator.Proofs.Session.Steps

/-!
# Taking over a repair

A repair that is offered keeps what the user wrote, and has a value. So taking it over and
calculating records it as the newest calculation, unless nothing is left of the expression but a
zero, which is an empty display.
-/

namespace DeskCalculator.Session

open Diagnosis (balancedFrom diagnose mend)
open Expression (compute isOperatorChar literals)
open History (Clock)

/-- Calculating a buffer with a value, other than that of an empty display, records it as the newest
calculation. -/
private theorem calculate_of_ok {s : Session} {x : Float} (hphase : s.phase = .editing)
    (hzero : s.buffer ≠ Buffer.zero) (hx : compute s.buffer = .ok x) (now : Clock) :
    (s.calculate now).session.phase = .executed ∧
      (s.calculate now).session.ledger.items =
        s.newItem x now :: s.ledger.items.take (s.ledger.bound - 1) := by
  have hidle : ¬ s.Idle := by simp [Idle, isExecuted, hphase, hzero]
  rw [calculate_of_value hidle hx]
  refine ⟨rfl, ?_⟩
  change (s.ledger.push (s.newItem x now)).1.items = _
  rw [History.Ledger.items_push, List.take_cons s.ledger.bound_pos]

/-- A repair that is shown is taken over as it is. -/
private theorem acceptFix_of_suggestion {s : Session} {fixed : List Char}
    (h : s.diagnosis?.bind (·.suggestion) = some fixed) : s.acceptFix = s.edit fixed := by
  rw [acceptFix, h]

/-- A repair that is offered for an expression keeps its numbers, its opening parentheses and its
operators, except that the last of these can be lost, and its parentheses have their partners. Where
a session shows it, taking it over and calculating shows a result and records the repaired
expression as the newest calculation, unless it is a single zero. -/
theorem suggestion_keeps_and_calculates {cs fixed : List Char} {e : Expression.CalcError}
    (hfixed : (diagnose cs e).suggestion = some fixed) :
    literals fixed = literals cs ∧ fixed.count '(' = cs.count '(' ∧
      (∃ o : Option Char,
        cs.filter isOperatorChar = fixed.filter isOperatorChar ++ o.toList) ∧
      balancedFrom 0 fixed ∧
      ∀ (s : Session) (now : Clock), s.diagnosis?.bind (·.suggestion) = some fixed →
        fixed ≠ Buffer.zero →
        let t := (s.acceptFix.calculate now).session
        t.phase = .executed ∧
          ∃ item, t.ledger.items = item :: s.ledger.items.take (s.ledger.bound - 1) ∧
            item.expression = String.ofList fixed := by
  obtain ⟨rfl, -, x, hx⟩ := Diagnosis.mend_of_suggestion hfixed
  refine ⟨Diagnosis.literals_mend cs, ?_, ?_, ?_, ?_⟩
  · obtain ⟨o, ho, hfilter⟩ := Diagnosis.exists_filter_mend (p := (· == '(')) rfl rfl
      (fun c hc ↦ by
        rw [beq_eq_false_iff_ne]
        rintro rfl
        cases hc) cs
    have hnone : o.toList.filter (· == '(') = [] := by
      rw [List.filter_eq_nil_iff]
      intro c hc hopening
      obtain rfl := beq_iff_eq.mp hopening
      cases ho _ (Option.mem_toList.mp hc)
    rw [hnone, List.append_nil] at hfilter
    rw [List.count_eq_length_filter, List.count_eq_length_filter, hfilter]
  · obtain ⟨o, ho, hfilter⟩ := Diagnosis.exists_filter_mend (p := isOperatorChar) rfl rfl
      (fun c hc ↦ by
        rw [← Bool.not_eq_true]
        intro hoperator
        rw [Diagnosis.isBlank_of_isOperatorChar hoperator] at hc
        cases hc) cs
    refine ⟨o, ?_⟩
    rw [hfilter, List.filter_eq_self.mpr fun c hc ↦ ho c (Option.mem_toList.mp hc)]
  · exact Diagnosis.balancedFrom_of_leads (Display.leads_of_evaluate hx)
  · intro s now hshown hzero
    rw [acceptFix_of_suggestion hshown]
    have hvalue : compute (s.edit (mend cs)).buffer = .ok x :=
      Display.compute_eq_ok_iff_evaluate.mpr hx
    obtain ⟨hphase, hitems⟩ := calculate_of_ok (s := s.edit (mend cs)) rfl hzero hvalue now
    exact ⟨hphase, _, hitems, rfl⟩

/-- A percent sign after an operator and a blank is dropped with both, and the group that is still
open is closed. The percent sign behind a number stays. -/
theorem suggestion_of_percent_in_group :
    let cs := "2×((3%-1)+ %".toList
    let fixed := "2×((3%-1))".toList
    let now : Clock := ⟨7, 2024, 2, 29, 23, 59⟩
    let s := (((fresh .standard none).enter cs).calculate now).session
    (diagnose cs .malformedPercentage).suggestion = some fixed ∧
      literals fixed = literals cs ∧ fixed.count '(' = cs.count '(' ∧ balancedFrom 0 fixed ∧
      s.diagnosis?.bind (·.suggestion) = some fixed ∧ fixed ≠ Buffer.zero ∧
      (s.acceptFix.calculate now).session.phase = .executed := by
  intro cs fixed now s
  have hfixed : (diagnose cs .malformedPercentage).suggestion = some fixed := by decide +kernel
  have hshown : s.diagnosis?.bind (·.suggestion) = some fixed := by decide +kernel
  have hzero : fixed ≠ Buffer.zero := by decide +kernel
  obtain ⟨hliterals, hcount, -, hbalanced, hcalculate⟩ := suggestion_keeps_and_calculates hfixed
  exact ⟨hfixed, hliterals, hcount, hbalanced, hshown, hzero, (hcalculate s now hshown hzero).1⟩

end DeskCalculator.Session
