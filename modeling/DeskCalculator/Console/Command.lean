import DeskCalculator.Number.Literal
import DeskCalculator.Session.Operation

/-!
# Commands

A line is split into words at blanks. The first word is the command; if it is none, every word of
the line is typed as a key.

Specification: §E8.
-/

namespace DeskCalculator.Console

/-- What a line asks for. -/
inductive Command where
  /-- The line is blank. -/
  | nothing
  | quit
  /-- An operation, after which the state is shown. -/
  | operate (op : Operation)
  /-- Keys, one after the other, after which the state is shown. -/
  | keys (words : List (List Char))
  | history
  /-- Deletes an item; no id is known if the word after the command spells none. -/
  | delete (id : Option Int)
  | note (id : Option Int) (text : List Char)
  | load (id : Option Int)
  /-- Shows the tax settings, or changes them as the words after the command say. -/
  | tax (arguments : List (List Char))
  /-- Changes the history bound, if one is given. -/
  | bound (n : Option Nat)

/-- Words with single spaces between them. -/
def joinWords (words : List (List Char)) : List Char :=
  List.intercalate [' '] words

/-- The id that the first of some words spells. -/
def readId? (arguments : List (List Char)) : Option Int :=
  arguments.head?.bind Number.readSigned?

/-- The commands that stand for an operation whatever follows them. -/
def plainOperation? (command : String) : Option Operation :=
  match command with
  | "=" => some .calculate
  | "back" => some .backspace
  | "sign" => some .toggleSign
  | "paren" | "()" => some .parenthesis
  | "ans" => some .typeAnswer
  | "fix" => some .acceptFix
  | "ac" => some .clearAll
  | "clear-history" => some .clearHistory
  | _ => none

/-- The command of words, `line` being the line that they stand in. -/
def Command.ofWords (line : List Char) : List (List Char) → Command
  | [] => .nothing
  | word :: arguments =>
    let command := String.ofList word
    match plainOperation? command with
    | some op => .operate op
    | none =>
      match command with
      | "quit" | "exit" => .quit
      | "set" => .operate (.enter ((Text.trimLeft line).drop word.length))
      | "history" => .history
      | "del" => .delete (readId? arguments)
      | "note" => .note (readId? arguments) (joinWords arguments.tail)
      | "load" => .load (readId? arguments)
      | "tax" => .tax arguments
      | "max" => .bound (arguments.head?.bind Number.readSize?)
      | _ => .keys (word :: arguments)

/-- The command of a line. -/
def Command.ofLine (line : List Char) : Command :=
  .ofWords line (Text.words line)

/-- Why the words after `tax` change nothing. -/
inductive TaxError where
  /-- There is no mode of that name. -/
  | unknownMode (name : List Char)
  /-- The words have no meaning. -/
  | usage
  deriving Repr, DecidableEq

/-- What the user is told about it. -/
def TaxError.message : TaxError → String
  | unknownMode name => "unknown tax mode '" ++ String.ofList name ++ "'"
  | usage => "usage: tax off | tax <add-15|divide-93|custom|extract-custom> [rate]"

/-- A finite rate that a word spells. -/
def readRate? (word : List Char) : Option Float :=
  match Number.readReal? word with
  | some rate => if rate.isFinite then some rate else none
  | none => none

/-- The settings that the words after `tax` make of the current ones. A mode without a rate leaves
the rate as it is, and `off` leaves everything else. -/
def changeTax (current : Tax.Settings) (arguments : List (List Char)) :
    Except TaxError Tax.Settings :=
  let withMode (name : List Char) (finish : Tax.Settings → Except TaxError Tax.Settings) :=
    match Tax.Mode.ofName? (String.ofList name) with
    | some mode => finish { current with isEnabled := true, mode }
    | none => .error (.unknownMode name)
  match arguments with
  | [name] =>
    if String.ofList name = "off" then .ok { current with isEnabled := false }
    else withMode name .ok
  | [name, rate] =>
    withMode name fun settings ↦
      match readRate? rate with
      | some rate => .ok { settings with rate }
      | none => .error .usage
  | _ => .error .usage

end DeskCalculator.Console
