import DeskCalculator.Session.Operation

/-!
# What the console prints

Each text ends with a line end. The state is the buffer, with the taxed result after a calculation
and a preview while editing, or the error with its diagnosis. The history has one line for each
item and a count of today's.

Specification: §E8.
-/

namespace DeskCalculator.Console

/-- The pieces of a line, put together and ended. -/
def line (pieces : List String) : String :=
  String.join pieces ++ "\n"

/-- The line of an error, with the problem marked in the expression. -/
def errorLine (message : String) : Option Diagnosis.Split → String
  | some d =>
    line ["! ", message, "  [", String.ofList d.before, ">>", String.ofList d.span, "<<",
      String.ofList d.after, "]"]
  | none => line ["! ", message]

/-- The line of a hint, with the repaired expression if there is one. -/
def hintLine (hint : String) : Option (List Char) → String
  | some fixed => line ["  ", hint, " ('fix' to use: ", String.ofList fixed, ")"]
  | none => line ["  ", hint]

/-- The line of a taxed result. -/
def taxedLine : Option Outcome → String
  | some ⟨_, some value, some label⟩ => line ["  with tax: ", value, " ", label]
  | _ => ""

/-- The line of a buffer's preview, unless it would repeat the buffer. -/
def previewLine (b : List Char) : String :=
  match Buffer.preview b with
  | some text => if text = b then "" else line ["  = ", String.ofList text]
  | none => ""

/-- What is shown of a session. -/
def stateText (s : Session) : String :=
  match s.phase with
  | .failed e d => errorLine e.message d.details ++ hintLine d.hint d.suggestion
  | .executed => line [String.ofList s.buffer] ++ taxedLine s.lastOutcome
  | .editing => line [String.ofList s.buffer] ++ previewLine s.buffer

/-- An integer in decimal. -/
def intText (n : Int) : String :=
  String.ofList (Number.signText (n < 0) ++ Number.digitsOf n.natAbs)

/-- A natural number in decimal. -/
def natText (n : Nat) : String :=
  String.ofList (Number.digitsOf n)

/-- The line of a history item. -/
def itemLine (i : History.Item) : String :=
  let tax := match i.taxResult with
    | some value => ["  (", value, " ", i.taxLabel.getD "", ")"]
    | none => []
  let notes := if i.notes = "" then [] else ["  # ", i.notes]
  line (["[", intText i.id, "] ", i.date, " ", i.time, "  ", i.expression, " = ", i.result] ++ tax ++
    notes)

/-- The recorded calculations, newest first, and how many of them were made today. -/
def historyText (items : List History.Item) (today : Nat) : String :=
  if items.isEmpty then line ["(no history)"]
  else String.join (items.map itemLine) ++ line [natText today, " today"]

/-- The line of the tax settings. -/
def taxText (t : Tax.Settings) : String :=
  if t.isEnabled then line ["tax: ", String.ofList (t.mode.describe t.rate)] else line ["tax: off"]

/-- The lines of notices. -/
def noticeText (notices : List String) : String :=
  String.join (notices.map fun n ↦ line ["* ", n])

end DeskCalculator.Console
