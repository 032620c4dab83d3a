import DeskCalculator.History.Item
import DeskCalculator.Tax.Stored

/-!
# History items as JSON

An item is a record of ten fields. The fields about tax may be null or missing, and missing notes
are empty.

Specification: §E5.
-/

namespace DeskCalculator.History.Item

/-- The fields of an item, in order. -/
def fieldNames : List String :=
  ["id", "expression", "result", "taxResult", "taxMode", "taxRate", "taxLabel", "date", "time",
    "notes"]

/-- An item as JSON. A rate that is not finite is lost. -/
def toJson (i : Item) : Json :=
  .object [("id", .integer i.id), ("expression", .string i.expression), ("result", .string i.result),
    ("taxResult", .ofOption .string i.taxResult), ("taxMode", .ofOption Tax.Mode.toJson i.taxMode),
    ("taxRate", .ofOption .ofFloat i.taxRate), ("taxLabel", .ofOption .string i.taxLabel),
    ("date", .string i.date), ("time", .string i.time), ("notes", .string i.notes)]

/-- The item that a value stands for. -/
def ofJson? (v : Json) : Option Item := do
  match ← v.fields? fieldNames with
  | [id, expression, result, taxResult, taxMode, taxRate, taxLabel, date, time, notes] =>
    return {
      id := ← Json.required? Json.asSigned? id
      expression := ← Json.required? Json.asString? expression
      result := ← Json.required? Json.asString? result
      taxResult := ← Json.orDefault? (Json.asOptional? Json.asString?) none taxResult
      taxMode := ← Json.orDefault? (Json.asOptional? Tax.Mode.ofJson?) none taxMode
      taxRate := ← Json.orDefault? (Json.asOptional? Json.asFloat?) none taxRate
      taxLabel := ← Json.orDefault? (Json.asOptional? Json.asString?) none taxLabel
      date := ← Json.required? Json.asString? date
      time := ← Json.required? Json.asString? time
      notes := ← Json.orDefault? Json.asString? "" notes }
  | _ => none

end DeskCalculator.History.Item
