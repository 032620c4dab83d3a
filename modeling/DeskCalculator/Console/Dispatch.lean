import DeskCalculator.Console.Command
import DeskCalculator.Console.Terminal

/-!
# Answering lines at a terminal

A line is answered by performing what it asks for and printing what there is to say, most often the
state. The calculator goes on until a line ends the program, is no text, or is the last one.

Specification: §E8.
-/

namespace DeskCalculator

open History (Clock)

namespace Console

open Calculator (perform setBound setTax)
open Terminal (nextLine print)

variable {m : Type → Type} [Monad m] [Terminal m]

/-! ### Showing -/

/-- Shows the error with its suggestion, or else the buffer, with the taxed result after a
calculation and a preview while editing. -/
def showState : Action m Unit := do
  let c ← get
  match c.error with
  | some e =>
    print (errorLine e.message e.details)
    match c.suggestion with
    | some s => print (hintLine s.message s.fix)
    | none => pure ()
  | none =>
    print (line [String.ofList c.buffer])
    print (if c.executed then taxedLine c.lastOutcome else previewLine c.buffer)

/-- Shows the recorded calculations. -/
def showHistory (now : Clock) : Action m Unit := do
  let c ← get
  print (historyText c.ledger.items (c.countToday now))

/-- Shows the tax settings. -/
def showTax : Action m Unit := do
  let c ← get
  print (taxText c.tax)

/-! ### Commands -/

/-- Types words as keys, one after the other. -/
def typeWords : List (List Char) → Action m Unit
  | [] => pure ()
  | word :: words => do
    Calculator.type word
    typeWords words

/-- Performs an operation on the item with an id and says how it went. -/
def changeItem (now : Clock) (id : Option Int) (op : Int → Operation) (success : Int → String) :
    Action m Unit := do
  let missing := line ["no such item"]
  match id with
  | none => print missing
  | some id =>
    let found ← perform now (op id)
    print (if found = some true then success id else missing)

/-- Shows or changes the tax settings. -/
def changeTaxBy (arguments : List (List Char)) : Action m Unit := do
  if arguments.isEmpty then
    showTax
  else
    let c ← get
    match changeTax c.tax arguments with
    | .ok settings =>
      setTax settings
      showTax
    | .error e => print (line [e.message])

/-- Changes the history bound, if one is given. -/
def changeBound : Option Nat → Action m Unit
  | some n => do
    setBound n
    let c ← get
    print (line ["keeping ", natText c.ledger.bound, " entries"])
  | none => do
    print (line ["usage: max <n>"])
    showState

/-- Does what a command asks for; says whether another line is read. -/
def obey (now : Clock) : Command → Action m Bool
  | .nothing => return true
  | .quit => return false
  | .operate op => do
    let _ ← perform now op
    showState
    return true
  | .keys words => do
    typeWords words
    showState
    return true
  | .history => do
    showHistory now
    return true
  | .delete id => do
    changeItem now id .delete fun id ↦ line ["deleted ", intText id]
    showState
    return true
  | .note id text => do
    changeItem now id (.note · (String.ofList text)) fun _ ↦ line ["noted"]
    showState
    return true
  | .load id => do
    changeItem now id .load fun _ ↦ ""
    showState
    return true
  | .tax arguments => do
    changeTaxBy arguments
    return true
  | .bound n => do
    changeBound n
    return true

/-- Answers a line; says whether another one is read. -/
def dispatch (now : Clock) (text : List Char) : Action m Bool :=
  obey now (.ofLine text)

/-- Answers lines until one ends the program, is no text, or is the last, but no more than `n`. -/
def serve : (n : Nat) → Action m Unit
  | 0 => pure ()
  | n + 1 => do
    match ← nextLine with
    | some (now, some text) =>
      let goesOn ← dispatch now text
      if goesOn then
        serve n
    | _ => pure ()

/-- Restores the calculator, shows its state and answers at most `n` lines. -/
def converse (defaults : Defaults) (n : Nat) : m Unit := do
  let c ← Calculator.restore defaults
  let session : Action m Unit := do
    showState
    serve n
  let _ ← session.run c

end Console

end DeskCalculator
