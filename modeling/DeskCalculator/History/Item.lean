import DeskCalculator.History.Clock
import DeskCalculator.Tax.Apply

/-!
# History items

An item records one successful calculation: what was calculated, its result, what tax was applied,
when it happened, and the user's note.

Specification: §3.
-/

namespace DeskCalculator.History

/-- One recorded calculation. -/
structure Item where
  id : Int
  expression : String
  result : String
  taxResult : Option String
  taxMode : Option Tax.Mode
  taxRate : Option Float
  taxLabel : Option String
  date : String
  time : String
  notes : String
  deriving DecidableEq

namespace Item

/-- The record of a calculation. The mode and rate of the tax are kept whenever it is switched on,
also when it has no finite value. -/
def record (id : Int) (expression : String) (result : Float) (tax : Tax.Settings) (now : Clock) :
    Item :=
  let taxed := Tax.taxed? result tax
  { id, expression
    result := String.ofList (Number.displayText result)
    taxResult := taxed.map fun t ↦ String.ofList (Number.displayText t.value)
    taxMode := if tax.isEnabled then some tax.mode else none
    taxRate := if tax.isEnabled then some tax.rate else none
    taxLabel := taxed.map fun t ↦ String.ofList t.label
    date := now.date
    time := now.time
    notes := "" }

end Item

end DeskCalculator.History
