import DeskCalculator.Session.Operation
import DeskCalculator.Store.Backing

/-!
# The calculator

A calculator keeps its error, its suggestion and the mark of a calculated buffer in fields of their
own, and every operation resets those that it outdates. It stores values and notifies the user
through its host while an operation is under way. A value that the host cannot store is passed over.

Specification: §4.5, §5 and §E6.
-/

namespace DeskCalculator

open History (Clock)

/-- What a calculator runs on: a store of values and a channel to the user. -/
class Host (m : Type → Type) where
  /-- The value that is stored under a key. -/
  get : String → m (Option Json)
  /-- Stores a value under a key, or says why it cannot. -/
  set : Store.Write → m (Except Store.StoreError Unit)
  /-- Tells the user something. -/
  notify : String → m Unit

/-- An error that is shown. -/
structure ErrorState where
  message : String
  /-- Where in the expression the problem lies. -/
  details : Option Diagnosis.Split
  deriving DecidableEq

/-- What is proposed about an error. -/
structure Suggestion where
  message : String
  /-- An expression to use instead. -/
  fix : Option (List Char)
  deriving DecidableEq

/-- A calculator. -/
structure Calculator where
  buffer : List Char
  /-- Whether the buffer is the result of a calculation. -/
  executed : Bool
  error : Option ErrorState
  suggestion : Option Suggestion
  /-- The text of the last result. -/
  lastAnswer : Option (List Char)
  lastOutcome : Option Outcome
  tax : Tax.Settings
  buttonLayout : String
  ledger : History.Ledger
  deriving DecidableEq

/-- What runs on a host and changes a calculator. -/
abbrev Action (m : Type → Type) := StateT Calculator m

instance {m : Type → Type} [Monad m] [Host m] : Host (Action m) where
  get key := StateT.lift (Host.get key)
  set w := StateT.lift (Host.set w)
  notify message := StateT.lift (Host.notify message)

namespace Calculator

/-- A calculator with an empty display and some recorded calculations. -/
def start (defaults : Defaults) (lastAnswer : Option (List Char)) (items : List History.Item) :
    Calculator where
  buffer := Buffer.zero
  executed := false
  error := none
  suggestion := none
  lastAnswer := lastAnswer
  lastOutcome := none
  tax := defaults.tax
  buttonLayout := defaults.buttonLayout
  ledger := .ofItems items defaults.maxHistory

/-- How many calculations were recorded on the day of a reading. -/
def countToday (c : Calculator) (now : Clock) : Nat :=
  c.ledger.countOn now.date

variable {m : Type → Type} [Monad m]

/-! ### The display -/

/-- Takes down the error and what is proposed about it. -/
def clearError : Action m Unit :=
  modify fun c ↦ { c with error := none, suggestion := none }

/-- Replaces the buffer. -/
def setBuffer (b : List Char) : Action m Unit :=
  modify fun c ↦ { c with buffer := b }

/-- Says whether the buffer is the result of a calculation. -/
def setExecuted (executed : Bool) : Action m Unit :=
  modify fun c ↦ { c with executed }

/-- Forgets the last outcome. -/
def clearOutcome : Action m Unit :=
  modify fun c ↦ { c with lastOutcome := none }

/-- The buffer that a key makes. After an error, which is taken down, and after a result it is a new
expression, except that an operator goes on from the result. -/
def nextBuffer (key : Buffer.Key) : Action m (List Char) := do
  let c ← get
  if c.error.isSome then
    clearError
    return key.fresh
  else if c.executed then
    match key with
    | .operator op => return c.buffer ++ [op.glyph]
    | _ => return key.fresh
  else
    return Buffer.append c.buffer key

/-- Presses a key. -/
def press (key : Buffer.Key) : Action m Unit := do
  let next ← nextBuffer key
  setExecuted false
  setBuffer next

/-- Types the key with a text on it; an unknown text does nothing. -/
def type (text : List Char) : Action m Unit := do
  match Buffer.Key.parse? text with
  | some key => press key
  | none => pure ()

/-- Deletes the last character. -/
def backspace : Action m Unit := do
  clearError
  setExecuted false
  let c ← get
  setBuffer (Buffer.backspace c.buffer)

/-- Flips the sign of a buffer that is a single number. -/
def toggleSign : Action m Unit := do
  clearError
  setExecuted false
  let c ← get
  match Buffer.toggleSign? c.buffer with
  | some next => setBuffer next
  | none => pure ()

/-- Presses the parenthesis key; after a result it starts a new expression. -/
def parenthesis : Action m Unit := do
  clearError
  let c ← get
  let next := if c.executed then ['('] else Buffer.parenthesis c.buffer
  setExecuted false
  setBuffer next

/-- Types the last answer, if there is one. -/
def typeAnswer : Action m Unit := do
  let c ← get
  match c.lastAnswer with
  | some answer => press (.answer answer)
  | none => pure ()

/-- Takes over the repaired expression, if one is offered. -/
def acceptFix : Action m Unit := do
  let c ← get
  match c.suggestion.bind Suggestion.fix with
  | some fix =>
    clearError
    setExecuted false
    setBuffer fix
  | none => pure ()

/-- Empties the display. -/
def clearAll : Action m Unit := do
  clearError
  setExecuted false
  clearOutcome
  setBuffer Buffer.zero

/-- Replaces the buffer by a text without the blanks around it. -/
def enter (text : List Char) : Action m Unit := do
  clearError
  setExecuted false
  let text := Text.trim text
  setBuffer (if text.isEmpty then Buffer.zero else text)

/-- Takes over the expression of a history item; says whether there is such an item. -/
def load (id : Int) : Action m Bool := do
  let c ← get
  match c.ledger.get? id with
  | none => return false
  | some item =>
    clearError
    setExecuted false
    clearOutcome
    setBuffer item.expression.toList
    return true

/-- Replaces the ledger. -/
def setLedger (ledger : History.Ledger) : Action m Unit :=
  modify fun c ↦ { c with ledger }

/-- Shows an error and what is proposed about it. -/
def fail (message : String) (diagnosis : Diagnosis) : Action m Unit :=
  modify fun c ↦ { c with
    error := some ⟨message, diagnosis.details⟩
    suggestion := some ⟨diagnosis.hint, diagnosis.suggestion⟩
    executed := false }

variable [Host m]

/-! ### The store -/

/-- Stores a value. If that fails, the calculator goes on with what it has in memory. -/
def persist (w : Store.Write) : Action m Unit := do
  match ← Host.set w with
  | .ok () => pure ()
  | .error _ => pure ()

/-- Stores the recorded calculations. -/
def persistHistory : Action m Unit := do
  let c ← get
  persist (Store.write Store.historyKey (Store.itemsJson c.ledger.items))

/-- Records a result and shows it. -/
def record (now : Clock) (expression : List Char) (value : Float) : Action m Unit := do
  let c ← get
  let item : History.Item :=
    .record (c.ledger.nextId now.millis) (String.ofList expression) value c.tax now
  let outcome := some ⟨item.result, item.taxResult, item.taxLabel⟩
  modify fun c ↦ { c with lastOutcome := outcome, ledger := (c.ledger.push item).1 }
  persistHistory
  clearError
  setBuffer item.result.toList
  modify fun c ↦ { c with lastAnswer := some item.result.toList, executed := true }

/-- Calculates the buffer, unless it is a result already or zero. -/
def calculate (now : Clock) : Action m Unit := do
  let c ← get
  if c.executed || c.buffer = Buffer.zero then
    pure ()
  else
    match Expression.compute c.buffer with
    | .ok value => record now c.buffer value
    | .error e => fail e.message (Diagnosis.diagnose c.buffer e)

/-- Removes all history items. -/
def clearHistory : Action m Unit := do
  let c ← get
  if c.ledger.items.isEmpty then
    Host.notify "History is already empty."
  else
    setLedger c.ledger.clear
    persistHistory
    Host.notify "History cleared."

/-- Replaces the ledger, which is stored if it changed; says whether it did. -/
def changeLedger (change : History.Ledger → History.Ledger × Bool) : Action m Bool := do
  let c ← get
  let (ledger, changed) := change c.ledger
  setLedger ledger
  if changed then
    persistHistory
  return changed

/-- Changes the tax settings. -/
def setTax (settings : Tax.Settings) : Action m Unit := do
  modify fun c ↦ { c with tax := settings }
  persist (Store.write Store.taxKey settings.toJson)

/-- Changes the history bound; the history is stored only if items fell off. -/
def setBound (bound : Nat) : Action m Unit := do
  let c ← get
  let (ledger, evicted) := c.ledger.setBound bound
  setLedger ledger
  persist (Store.write Store.boundKey (Store.sizeJson ledger.bound))
  if 0 < evicted then
    persistHistory

/-- Changes the button layout. -/
def setLayout (layout : String) : Action m Unit := do
  modify fun c ↦ { c with buttonLayout := layout }
  persist (Store.write Store.layoutKey (.string layout))

/-- Performs an operation at a moment. The flag says whether an item with the given id was found,
for the operations that look for one. -/
def perform (now : Clock) : Operation → Action m (Option Bool)
  | .type text => do type text; return none
  | .press key => do press key; return none
  | .backspace => do backspace; return none
  | .toggleSign => do toggleSign; return none
  | .parenthesis => do parenthesis; return none
  | .typeAnswer => do typeAnswer; return none
  | .calculate => do calculate now; return none
  | .acceptFix => do acceptFix; return none
  | .clearAll => do clearAll; return none
  | .enter text => do enter text; return none
  | .load id => some <$> load id
  | .delete id => some <$> changeLedger (·.remove id)
  | .note id text => some <$> changeLedger (·.setNote id text)
  | .clearHistory => do clearHistory; return none
  | .setTax settings => do setTax settings; return none
  | .setBound bound => do setBound bound; return none
  | .setLayout layout => do setLayout layout; return none

/-- Performs operations one after the other, each at its moment. -/
def performAll : List (Clock × Operation) → Action m Unit
  | [] => pure ()
  | step :: steps => do
    let _ ← perform step.1 step.2
    performAll steps

/-! ### Starting -/

/-- The typed value that is stored under a key, or a default if there is none of its shape. -/
def loadOr {α : Type} (key : String) (read : Json → Option α) (default : α) : m α := do
  let value ← Host.get key
  return (value.bind read).getD default

/-- The calculator that goes on from what is stored, with defaults for what is not. -/
def restore (defaults : Defaults) : m Calculator := do
  let tax ← loadOr Store.taxKey Tax.Settings.ofJson? defaults.tax
  let maxHistory ← loadOr Store.boundKey Json.asSize? defaults.maxHistory
  let buttonLayout ← loadOr Store.layoutKey Json.asString? defaults.buttonLayout
  let items ← loadOr Store.historyKey (Json.asList? History.Item.ofJson?) []
  return start { maxHistory, buttonLayout, tax } none items

end Calculator

end DeskCalculator
