import DeskCalculator.Session.State
import DeskCalculator.Store.Entries

/-!
# Operations of a session

Every operation takes the session to the next one and says what is to be stored, what the user is
notified of, and whether it found what it was asked for. The session never learns whether storing
succeeds. A `Calculator` stores while it operates; that it ends up with what is said here is a
theorem.

Specification: §4.5 and §E6.
-/

namespace DeskCalculator

/-- What a user can do. -/
inductive Operation where
  /-- Types the key with a text on it; an unknown text does nothing. -/
  | type (text : List Char)
  /-- Presses a key. -/
  | press (key : Buffer.Key)
  | backspace
  | toggleSign
  | parenthesis
  /-- Types the last answer. -/
  | typeAnswer
  | calculate
  /-- Takes over the repaired expression. -/
  | acceptFix
  | clearAll
  /-- Replaces the buffer by a text. -/
  | enter (text : List Char)
  /-- Takes over the expression of a history item. -/
  | load (id : Int)
  | delete (id : Int)
  | note (id : Int) (text : String)
  | clearHistory
  | setTax (settings : Tax.Settings)
  | setBound (bound : Nat)
  | setLayout (layout : String)

/-- What an operation brings about. -/
structure Reply where
  session : Session
  /-- What is to be stored, in order. -/
  writes : List Store.Write := []
  notices : List String := []
  /-- Whether an item with the given id was found, for the operations that look for one. -/
  found : Option Bool := none

namespace Session

/-- The recorded calculations, to be stored. -/
def historyWrite (s : Session) : Store.Write :=
  Store.write Store.historyKey (Store.itemsJson s.ledger.items)

/-- The session with another buffer, which is edited from now on. -/
def edit (s : Session) (b : List Char) : Session :=
  { s with buffer := b, phase := .editing }

/-- Presses a key. After an error and after a result it starts a new expression, except that an
operator goes on from the result. -/
def press (s : Session) (key : Buffer.Key) : Session :=
  s.edit <|
    match s.phase, key with
    | .editing, key => Buffer.append s.buffer key
    | .executed, .operator op => s.buffer ++ [op.glyph]
    | _, key => key.fresh

/-- Types the key with a text on it. -/
def type (s : Session) (text : List Char) : Session :=
  match Buffer.Key.parse? text with
  | some key => s.press key
  | none => s

/-- Deletes the last character. -/
def backspace (s : Session) : Session :=
  s.edit (Buffer.backspace s.buffer)

/-- Flips the sign of a buffer that is a single number. -/
def toggleSign (s : Session) : Session :=
  s.edit ((Buffer.toggleSign? s.buffer).getD s.buffer)

/-- Presses the parenthesis key; after a result it starts a new expression. -/
def parenthesis (s : Session) : Session :=
  s.edit (if s.isExecuted then ['('] else Buffer.parenthesis s.buffer)

/-- Types the last answer, if there is one. -/
def typeAnswer (s : Session) : Session :=
  match s.lastAnswer with
  | some answer => s.press (.answer answer)
  | none => s

/-- The item that records a result. -/
def newItem (s : Session) (value : Float) (now : History.Clock) : History.Item :=
  .record (s.ledger.nextId now.millis) (String.ofList s.buffer) value s.tax now

/-- Records a result and shows it. -/
def finish (s : Session) (value : Float) (now : History.Clock) : Session :=
  let item := s.newItem value now
  let result := Number.displayText value
  { s with
    buffer := result
    phase := .executed
    lastAnswer := some result
    lastOutcome := some ⟨item.result, item.taxResult, item.taxLabel⟩
    ledger := (s.ledger.push item).1 }

/-- Calculates the buffer, unless it is a result already or zero. -/
def calculate (s : Session) (now : History.Clock) : Reply :=
  if s.isExecuted || s.buffer = Buffer.zero then { session := s }
  else
    match Expression.compute s.buffer with
    | .ok value =>
      let next := s.finish value now
      { session := next, writes := [next.historyWrite] }
    | .error e => { session := { s with phase := .failed e (Diagnosis.diagnose s.buffer e) } }

/-- Takes over the repaired expression, if one is offered. -/
def acceptFix (s : Session) : Session :=
  match s.diagnosis?.bind (·.suggestion) with
  | some fixed => s.edit fixed
  | none => s

/-- Empties the display. -/
def clearAll (s : Session) : Session :=
  { s.edit Buffer.zero with lastOutcome := none }

/-- Replaces the buffer by a text without the blanks around it. -/
def enter (s : Session) (text : List Char) : Session :=
  let text := Text.trim text
  s.edit (if text.isEmpty then Buffer.zero else text)

/-- Takes over the expression of a history item. -/
def load (s : Session) (id : Int) : Reply :=
  match s.ledger.get? id with
  | some item =>
    { session := { s.edit item.expression.toList with lastOutcome := none }, found := some true }
  | none => { session := s, found := some false }

/-- The session with another ledger, which is stored if it changed. -/
def withLedger (s : Session) (change : History.Ledger × Bool) : Reply :=
  let next := { s with ledger := change.1 }
  if change.2 then { session := next, writes := [next.historyWrite], found := some true }
  else { session := next, found := some false }

/-- Removes all history items. -/
def clearHistory (s : Session) : Reply :=
  if s.ledger.items.isEmpty then { session := s, notices := ["History is already empty."] }
  else
    let next := { s with ledger := s.ledger.clear }
    { session := next, writes := [next.historyWrite], notices := ["History cleared."] }

/-- Changes the tax settings. -/
def setTax (s : Session) (settings : Tax.Settings) : Reply :=
  { session := { s with tax := settings }, writes := [Store.write Store.taxKey settings.toJson] }

/-- Changes the history bound; the history is stored only if items fell off. -/
def setBound (s : Session) (bound : Nat) : Reply :=
  let (ledger, evicted) := s.ledger.setBound bound
  let next := { s with ledger }
  let boundWrite := Store.write Store.boundKey (Store.sizeJson ledger.bound)
  { session := next
    writes := if 0 < evicted then [boundWrite, next.historyWrite] else [boundWrite] }

/-- Changes the button layout. -/
def setLayout (s : Session) (layout : String) : Reply :=
  { session := { s with buttonLayout := layout }
    writes := [Store.write Store.layoutKey (.string layout)] }

/-- What an operation at a moment brings about. -/
def perform (s : Session) (now : History.Clock) : Operation → Reply
  | .type text => { session := s.type text }
  | .press key => { session := s.press key }
  | .backspace => { session := s.backspace }
  | .toggleSign => { session := s.toggleSign }
  | .parenthesis => { session := s.parenthesis }
  | .typeAnswer => { session := s.typeAnswer }
  | .calculate => s.calculate now
  | .acceptFix => { session := s.acceptFix }
  | .clearAll => { session := s.clearAll }
  | .enter text => { session := s.enter text }
  | .load id => s.load id
  | .delete id => s.withLedger (s.ledger.remove id)
  | .note id text => s.withLedger (s.ledger.setNote id text)
  | .clearHistory => s.clearHistory
  | .setTax settings => s.setTax settings
  | .setBound bound => s.setBound bound
  | .setLayout layout => s.setLayout layout

/-- How many calculations were recorded on the day of a reading. -/
def countToday (s : Session) (now : History.Clock) : Nat :=
  s.ledger.countOn now.date

/-- The session that goes on from what is stored, with defaults for what is not. -/
def restore (entries : Store.Entries) (defaults : Defaults) : Session :=
  let bound := Store.loadOr entries Store.boundKey Json.asSize? defaults.maxHistory
  let items := Store.loadOr entries Store.historyKey (Json.asList? History.Item.ofJson?) []
  { fresh defaults none with
    tax := Store.loadOr entries Store.taxKey Tax.Settings.ofJson? defaults.tax
    buttonLayout := Store.loadOr entries Store.layoutKey Json.asString? defaults.buttonLayout
    ledger := .ofItems items bound }

end Session

end DeskCalculator
