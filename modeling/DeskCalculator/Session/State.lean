import DeskCalculator.Buffer.Edit
import DeskCalculator.Diagnosis.Diagnose
import DeskCalculator.History.Ledger

/-!
# The state of a session

A session is what a calculator shows: the buffer that is being edited, a phase, the last results,
the preferences and the ledger. An error belongs to the phase, so there is never one beside an
executed calculation, and its diagnosis is always at hand. A `Calculator` keeps the error, the
suggestion and the mark of a result in separate fields; that it always shows a session is a theorem
about its operations.

Specification: §3 and §4.5.
-/

namespace DeskCalculator

/-- What the display is doing. -/
inductive Phase where
  /-- The buffer is being edited. -/
  | editing
  /-- The buffer is the result of a calculation. -/
  | executed
  /-- The buffer could not be calculated. -/
  | failed (error : Expression.CalcError) (diagnosis : Diagnosis)
  deriving DecidableEq

/-- The texts of a calculation's results. -/
structure Outcome where
  result : String
  taxResult : Option String
  taxLabel : Option String
  deriving DecidableEq

/-- What a session starts from when nothing is stored. -/
structure Defaults where
  maxHistory : Nat
  buttonLayout : String
  tax : Tax.Settings
  deriving DecidableEq

/-- The defaults of a calculator that nobody has configured. -/
def Defaults.standard : Defaults where
  maxHistory := 100
  buttonLayout := "standard"
  tax := .standard

/-- A calculator session. -/
structure Session where
  buffer : List Char
  phase : Phase
  /-- The text of the last result. -/
  lastAnswer : Option (List Char)
  lastOutcome : Option Outcome
  tax : Tax.Settings
  buttonLayout : String
  ledger : History.Ledger
  deriving DecidableEq

/-- The result that a buffer would have, if it has one. -/
def Buffer.preview (b : List Char) : Option (List Char) :=
  match Expression.compute b with
  | .ok x => some (Number.displayText x)
  | .error _ => none

namespace Session

/-- A session with an empty display. -/
def fresh (defaults : Defaults) (lastAnswer : Option (List Char)) : Session where
  buffer := Buffer.zero
  phase := .editing
  lastAnswer := lastAnswer
  lastOutcome := none
  tax := defaults.tax
  buttonLayout := defaults.buttonLayout
  ledger := .ofItems [] defaults.maxHistory

/-- Whether the buffer is the result of a calculation. -/
def isExecuted (s : Session) : Bool :=
  s.phase = .executed

/-- The error that is shown. -/
def error? (s : Session) : Option Expression.CalcError :=
  match s.phase with
  | .failed e _ => some e
  | _ => none

/-- The diagnosis that is shown. -/
def diagnosis? (s : Session) : Option Diagnosis :=
  match s.phase with
  | .failed _ d => some d
  | _ => none

/-- The result that the buffer would have, if it has one. -/
def preview (s : Session) : Option (List Char) :=
  Buffer.preview s.buffer

end Session

end DeskCalculator
