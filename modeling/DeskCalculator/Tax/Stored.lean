import DeskCalculator.Json.Decode
import DeskCalculator.Tax.Settings

/-!
# Tax settings as JSON

A mode is its name, and is also read from an object whose only member has that name and the value
null. Settings are a record of four fields; what is missing has its standard value.

Specification: §E5.
-/

namespace DeskCalculator.Tax

/-- A mode as JSON. -/
def Mode.toJson (m : Mode) : Json :=
  .string m.name

/-- The mode that a value stands for. -/
def Mode.ofJson? : Json → Option Mode
  | .string name => ofName? name
  | .object [(name, .null)] => ofName? name
  | _ => none

namespace Settings

/-- The fields of settings, in order. -/
def fieldNames : List String :=
  ["isEnabled", "mode", "rate", "showTaxPerNumber"]

/-- Settings as JSON. A rate that is not finite is lost. -/
def toJson (s : Settings) : Json :=
  .object [("isEnabled", .bool s.isEnabled), ("mode", s.mode.toJson), ("rate", .ofFloat s.rate),
    ("showTaxPerNumber", .bool s.showPerNumber)]

/-- The settings that a value stands for. -/
def ofJson? (v : Json) : Option Settings := do
  match ← v.fields? fieldNames with
  | [isEnabled, mode, rate, showPerNumber] =>
    return {
      isEnabled := ← Json.orDefault? Json.asBool? standard.isEnabled isEnabled
      mode := ← Json.orDefault? Mode.ofJson? standard.mode mode
      rate := ← Json.orDefault? Json.asFloat? standard.rate rate
      showPerNumber := ← Json.orDefault? Json.asBool? standard.showPerNumber showPerNumber }
  | _ => none

end Settings

end DeskCalculator.Tax
