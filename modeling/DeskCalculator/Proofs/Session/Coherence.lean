import DeskCalculator.Proofs.Session.Refinement

/-!
# What a session shows belongs to its buffer

Every operation that changes the buffer also takes down the error and the result that were shown. So
in every state that a session can reach, an error is the one that computing the buffer gives, its
diagnosis is that of the buffer, and the result of a calculation is the buffer itself.
-/

namespace DeskCalculator

open Diagnosis (diagnose)
open Expression (compute)

namespace Session

/-- A session at its start: with an empty display, or as it is restored from what is stored. -/
inductive Starts : Session → Prop where
  | fresh (defaults : Defaults) (lastAnswer : Option (List Char)) :
      Starts (.fresh defaults lastAnswer)
  | restore (entries : Store.Entries) (defaults : Defaults) : Starts (.restore entries defaults)

/-! ### The invariant -/

/-- The error that is shown is the one of the buffer, and so is its diagnosis; a result that is
shown is the buffer, the last answer and the last outcome. -/
structure Coherent (s : Session) : Prop where
  failed : ∀ e d, s.phase = .failed e d → compute s.buffer = .error e ∧ d = diagnose s.buffer e
  executed : s.phase = .executed →
    s.lastAnswer = some s.buffer ∧ s.lastOutcome.map Outcome.result = some (String.ofList s.buffer)

namespace Coherent

variable {s t : Session}

/-- A buffer that is being edited shows neither an error nor a result. -/
theorem of_editing (h : s.phase = .editing) : s.Coherent where
  failed e d hphase := by
    rw [h] at hphase
    cases hphase
  executed hphase := by
    rw [h] at hphase
    cases hphase

/-- Only what is shown matters. -/
theorem congr (h : s.Coherent) (hsame : s.ShowsSame t) : t.Coherent where
  failed e d ht := by
    rw [hsame.buffer]
    exact h.failed e d (hsame.phase ▸ ht)
  executed ht := by
    rw [hsame.buffer, hsame.lastAnswer, hsame.lastOutcome]
    exact h.executed (hsame.phase ▸ ht)

theorem of_starts (h : s.Starts) : s.Coherent := by
  cases h with
  | fresh defaults lastAnswer => exact of_editing rfl
  | restore entries defaults => exact of_editing rfl

/-- A result is shown as the last answer and the last outcome, too. -/
theorem finish (s : Session) (value : Float) (now : History.Clock) :
    (s.finish value now).Coherent where
  failed e d hphase := by cases hphase
  executed _ := ⟨rfl, rfl⟩

/-- A calculation shows its result, or the error of the buffer that it leaves as it is. -/
theorem calculate (h : s.Coherent) (now : History.Clock) : (s.calculate now).session.Coherent := by
  by_cases hidle : s.Idle
  · rwa [calculate_of_idle hidle]
  · cases hvalue : compute s.buffer with
    | ok value =>
      rw [calculate_of_value hidle hvalue]
      exact finish s value now
    | error e =>
      rw [calculate_of_error hidle hvalue]
      refine ⟨fun e' d hphase ↦ ?_, fun hphase ↦ ?_⟩
      · cases hphase
        exact ⟨hvalue, rfl⟩
      · cases hphase

/-- Every operation keeps what is shown and the buffer together. -/
theorem perform (h : s.Coherent) (now : History.Clock) (op : Operation) :
    (s.perform now op).session.Coherent := by
  by_cases hop : op = .calculate
  · rw [hop]
    exact h.calculate now
  · rcases s.editing_or_showsSame_perform now hop with hediting | hsame
    · exact of_editing hediting
    · exact h.congr hsame

/-- So does every run. -/
theorem run (h : s.Coherent) (steps : List (History.Clock × Operation)) : (s.run steps).Coherent :=
  run_induction h fun step _ _ hs ↦ hs.perform step.1 step.2

end Coherent

end Session

namespace Calculator

/-- A phase shows an error exactly if it proposes something. -/
private theorem isSome_errorOf (phase : Phase) :
    (errorOf phase).isSome ↔ (suggestionOf phase).isSome := by
  cases phase <;> rfl

/-- Only a failed calculation shows an error. -/
theorem exists_failed_of_isSome {phase : Phase} (h : (errorOf phase).isSome) :
    ∃ e d, phase = .failed e d := by
  cases phase with
  | editing => cases h
  | executed => cases h
  | failed e d => exact ⟨e, d, rfl⟩

/-! ### Calculators -/

variable {σ : Type} [Store.Backing σ]

/-- A calculator at its start: with an empty display, or as it is restored from what is stored. -/
inductive Starts (w : World σ) : Calculator → Prop where
  | fresh (defaults : Defaults) (lastAnswer : Option (List Char)) :
      Starts w (start defaults lastAnswer [])
  | restore (defaults : Defaults) : Starts w (w.restore defaults).1

/-- A calculator at its start shows a session at its start. -/
private theorem Starts.exists_ofSession {w : World σ} {c : Calculator} (h : c.Starts w) :
    ∃ s : Session, s.Starts ∧ c = ofSession s := by
  cases h with
  | fresh defaults lastAnswer =>
    exact ⟨_, .fresh defaults lastAnswer, start_eq_ofSession defaults lastAnswer⟩
  | restore defaults =>
    exact ⟨_, .restore _ defaults, congrArg Prod.fst (restore_eq_ofSession w defaults)⟩

/-- In every state that a calculator can reach, an error is there exactly if a suggestion is, and
never beside the result of a calculation. The error is the one that computing the buffer gives, and
its place, the hint and the repair are those of the diagnosis. After a calculation the buffer, the
last answer and the result of the last outcome are the same text. -/
theorem shown_belongs_to_buffer {w : World σ} {start : Calculator} (h : start.Starts w)
    (steps : List (History.Clock × Operation)) :
    let c := (w.run (performAll steps) start).1.2
    (c.error.isSome ↔ c.suggestion.isSome) ∧
    ¬ (c.error.isSome ∧ c.executed) ∧
    (c.error.isSome → ∃ e, compute c.buffer = .error e ∧
      let d := diagnose c.buffer e
      c.error = some ⟨e.message, d.details⟩ ∧ c.suggestion = some ⟨d.hint, d.suggestion⟩) ∧
    (c.executed → c.lastAnswer = some c.buffer ∧
      ∃ o, c.lastOutcome = some o ∧ o.result = String.ofList c.buffer) := by
  obtain ⟨s, hstart, rfl⟩ := h.exists_ofSession
  have ht : (s.run steps).Coherent := (Session.Coherent.of_starts hstart).run steps
  rw [performAll_ofSession]
  generalize s.run steps = t at ht
  refine ⟨isSome_errorOf t.phase, ?_, ?_, ?_⟩
  · rintro ⟨herror, hexecuted⟩
    obtain ⟨e, d, hfailed⟩ := exists_failed_of_isSome herror
    have hphase : t.phase = .executed := of_decide_eq_true hexecuted
    rw [hfailed] at hphase
    cases hphase
  · intro herror
    obtain ⟨e, d, hfailed⟩ := exists_failed_of_isSome herror
    obtain ⟨hcompute, rfl⟩ := ht.failed e d hfailed
    refine ⟨e, hcompute, ?_, ?_⟩
    · change errorOf t.phase = _
      rw [hfailed]
      rfl
    · change suggestionOf t.phase = _
      rw [hfailed]
      rfl
  · intro hexecuted
    obtain ⟨hanswer, houtcome⟩ := ht.executed (of_decide_eq_true hexecuted)
    exact ⟨hanswer, Option.map_eq_some_iff.mp houtcome⟩

/-- A restored calculator whose writes fail divides by zero twice: the first error is taken down by
a key, and the second one stands in a buffer that a key and a deletion have passed through. -/
theorem shown_after_division_by_zero :
    let w : World Store.Memory :=
      { store := ⟨[Store.write Store.boundKey (Store.sizeJson 3)]⟩, succeeds := fun _ ↦ false }
    let start := (w.restore .standard).1
    let steps := List.map (Prod.mk (⟨7, 2024, 2, 29, 23, 59⟩ : History.Clock))
      [.type ['8'], .calculate, .type ['÷'], .type ['0'], .type ['('], .calculate, .backspace,
        .type ['0'], .calculate]
    let c := (w.run (performAll steps) start).1.2
    start.Starts w ∧ c.buffer = "8÷0".toList ∧ c.error.isSome ∧
      c.error = some ⟨"Invalid expression: result is not a finite number",
        some ⟨['8'], "÷0".toList, []⟩⟩ ∧
      c.suggestion = some ⟨"Division by zero is undefined.", none⟩ ∧
      ∃ e, compute c.buffer = .error e ∧
        let d := diagnose c.buffer e
        c.error = some ⟨e.message, d.details⟩ ∧ c.suggestion = some ⟨d.hint, d.suggestion⟩ := by
  intro w start steps c
  have hstart : start.Starts w := .restore .standard
  have hbuffer : c.buffer = "8÷0".toList := by decide +kernel
  have herror : c.error.isSome := by decide +kernel
  have hshown : c.error = some ⟨"Invalid expression: result is not a finite number",
      some ⟨['8'], "÷0".toList, []⟩⟩ := by decide +kernel
  have hproposed : c.suggestion = some ⟨"Division by zero is undefined.", none⟩ := by
    decide +kernel
  exact ⟨hstart, hbuffer, herror, hshown, hproposed,
    (shown_belongs_to_buffer hstart steps).2.2.1 herror⟩

end Calculator

end DeskCalculator
