import DeskCalculator.History.Stored

/-!
# Stored values

A store keeps one JSON value under each key, in the order of the keys. A typed value is read with a
default for the case that the key is absent or its value has another shape.

Specification: §6 and §E5.
-/

namespace DeskCalculator.Store

/-- What a store keeps: values under ascending keys. -/
abbrev Entries := List (String × Json)

/-- A value to be stored under a key. -/
abbrev Write := String × Json

/-- The key of the recorded calculations. -/
def historyKey : String := "history"

/-- The key of the tax settings. -/
def taxKey : String := "taxSettings"

/-- The key of the history bound. -/
def boundKey : String := "maxHistory"

/-- The key of the button layout. -/
def layoutKey : String := "buttonLayout"

/-- The value under a key. -/
def get? (entries : Entries) (key : String) : Option Json :=
  Json.findMember? key entries

/-- The entries after a value has been stored. -/
def put (entries : Entries) (w : Write) : Entries :=
  Json.insertMember w.1 w.2 entries

/-- A stored value is found under its key. -/
@[simp] theorem get?_put_self (entries : Entries) (w : Write) :
    get? (put entries w) w.1 = some w.2 :=
  Json.findMember?_insertMember_self w.1 w.2 entries

/-- A value under another key stays. -/
theorem get?_put_of_ne {key : String} {w : Write} (h : key ≠ w.1) (entries : Entries) :
    get? (put entries w) key = get? entries key :=
  Json.findMember?_insertMember_of_ne h w.2 entries

/-- The typed value under a key, or a default. -/
def loadOr (entries : Entries) (key : String) (read : Json → Option α) (default : α) : α :=
  ((get? entries key).bind read).getD default

/-- Items as JSON. -/
def itemsJson (items : List History.Item) : Json :=
  .array (items.map History.Item.toJson)

/-- A size as JSON. -/
def sizeJson (n : Nat) : Json :=
  .integer n

/-- Stores a typed value; the keys of its objects are put in order. -/
def write (key : String) (value : Json) : Write :=
  (key, value.sorted)

end DeskCalculator.Store
