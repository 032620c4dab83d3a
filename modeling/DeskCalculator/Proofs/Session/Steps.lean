import DeskCalculator.Session.Operation

/-!
# Steps of a session

A calculation does one of three things. A result and an empty display it leaves alone. Of an
expression without a value it shows the error and touches nothing else. A value it records, stores
and shows. Every other operation starts to edit or leaves what is shown as it is. What every
operation of a run keeps holds after the run.
-/

namespace DeskCalculator.Session

open Diagnosis (diagnose)
open Expression (compute CalcError)
open History (Clock Ledger)

/-! ### Calculations -/

/-- Whether there is nothing to calculate: the buffer is a result already, or the display is
empty. -/
def Idle (s : Session) : Prop :=
  s.isExecuted ∨ s.buffer = Buffer.zero

variable {s : Session}

theorem calculate_of_idle (h : s.Idle) (now : Clock) : s.calculate now = { session := s } := by
  rw [calculate, if_pos (by simpa [Idle] using h)]

/-- An error is shown, and nothing else changes. -/
theorem calculate_of_error (h : ¬ s.Idle) {e : CalcError} (he : compute s.buffer = .error e)
    (now : Clock) :
    s.calculate now =
      { session := { s with phase := .failed e (diagnose s.buffer e) } } := by
  rw [calculate, if_neg (by simpa [Idle] using h), he]

/-- A value is recorded and shown, and the recorded calculations are written. -/
theorem calculate_of_value (h : ¬ s.Idle) {x : Float} (hx : compute s.buffer = .ok x)
    (now : Clock) :
    s.calculate now =
      { session := s.finish x now, writes := [(s.finish x now).historyWrite] } := by
  rw [calculate, if_neg (by simpa [Idle] using h), hx]

/-! ### Other operations -/

/-- Whether a session shows what another one shows. -/
structure ShowsSame (s t : Session) : Prop where
  phase : t.phase = s.phase
  buffer : t.buffer = s.buffer
  lastAnswer : t.lastAnswer = s.lastAnswer
  lastOutcome : t.lastOutcome = s.lastOutcome

private theorem ShowsSame.refl (s : Session) : s.ShowsSame s :=
  ⟨rfl, rfl, rfl, rfl⟩

private theorem showsSame_withLedger (s : Session) (change : Ledger × Bool) :
    s.ShowsSame (s.withLedger change).session := by
  unfold withLedger
  dsimp only
  split
  · exact ⟨rfl, rfl, rfl, rfl⟩
  · exact ⟨rfl, rfl, rfl, rfl⟩

/-- A calculation apart, every operation starts to edit or leaves what is shown as it is. -/
theorem editing_or_showsSame_perform (s : Session) (now : Clock) {op : Operation}
    (hop : op ≠ .calculate) :
    (s.perform now op).session.phase = .editing ∨ s.ShowsSame (s.perform now op).session := by
  cases op with
  | type text =>
    rw [perform, type]
    split
    · exact .inl rfl
    · exact .inr (.refl s)
  | press key => exact .inl rfl
  | backspace => exact .inl rfl
  | toggleSign => exact .inl rfl
  | parenthesis => exact .inl rfl
  | typeAnswer =>
    rw [perform, typeAnswer]
    split
    · exact .inl rfl
    · exact .inr (.refl s)
  | calculate => exact absurd rfl hop
  | acceptFix =>
    rw [perform, acceptFix]
    split
    · exact .inl rfl
    · exact .inr (.refl s)
  | clearAll => exact .inl rfl
  | enter text => exact .inl rfl
  | load id =>
    rw [perform, load]
    split
    · exact .inl rfl
    · exact .inr (.refl s)
  | delete id => exact .inr (s.showsSame_withLedger _)
  | note id text => exact .inr (s.showsSame_withLedger _)
  | clearHistory =>
    rw [perform, clearHistory]
    split
    · exact .inr (.refl s)
    · exact .inr ⟨rfl, rfl, rfl, rfl⟩
  | setTax settings => exact .inr ⟨rfl, rfl, rfl, rfl⟩
  | setBound bound => exact .inr ⟨rfl, rfl, rfl, rfl⟩
  | setLayout layout => exact .inr ⟨rfl, rfl, rfl, rfl⟩

/-! ### Runs -/

/-- A session after some operations at some moments. -/
def run (s : Session) (steps : List (Clock × Operation)) : Session :=
  steps.foldl (fun s step ↦ (s.perform step.1 step.2).session) s

/-- What every operation of a run keeps holds after the run. -/
theorem run_induction {P : Session → Prop} {s : Session} (h : P s)
    {steps : List (Clock × Operation)}
    (hstep : ∀ step ∈ steps, ∀ s, P s → P (s.perform step.1 step.2).session) : P (s.run steps) := by
  induction steps generalizing s with
  | nil => exact h
  | cons step steps ih =>
    obtain ⟨hfirst, hrest⟩ := List.forall_mem_cons.mp hstep
    exact ih (hfirst s h) hrest

end DeskCalculator.Session
