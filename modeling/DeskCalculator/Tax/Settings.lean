import DeskCalculator.Number.Display

/-!
# Tax settings

A tax has one of four modes. Two have a fixed rate; the other two use the rate of the settings.

Specification: §3 and §4.3.
-/

namespace DeskCalculator.Tax

/-- How a tax is worked out from a result. -/
inductive Mode where
  /-- 15 % are added. -/
  | add15
  /-- The result is what is left of 0.93 of the whole. -/
  | divide93
  /-- The rate of the settings is added. -/
  | custom
  /-- The rate of the settings is taken out again. -/
  | extractCustom
  deriving Repr, DecidableEq

namespace Mode

/-- The name of a mode in commands and stored settings. -/
def name : Mode → String
  | add15 => "add-15"
  | divide93 => "divide-93"
  | custom => "custom"
  | extractCustom => "extract-custom"

/-- All modes. -/
def all : List Mode :=
  [add15, divide93, custom, extractCustom]

/-- The mode with a given name. -/
def ofName? (text : String) : Option Mode :=
  all.find? fun m ↦ m.name == text

/-- A mode is found under its name. -/
@[simp] theorem ofName?_name (m : Mode) : ofName? m.name = some m := by
  cases m <;> decide

/-- The rate that is shown beside an amount of tax. -/
def effectiveRate (m : Mode) (rate : Float) : Float :=
  match m with
  | add15 => 15
  | divide93 => 7
  | custom | extractCustom => rate

/-- What a mode does, in words. -/
def describe (m : Mode) (rate : Float) : List Char :=
  match m with
  | add15 => "Add 15%".toList
  | divide93 => "Divide by 0.93".toList
  | custom => "Add custom ".toList ++ Number.displayText rate ++ ['%']
  | extractCustom => "Extract custom ".toList ++ Number.displayText rate ++ ['%']

end Mode

/-- The tax settings of a session. -/
structure Settings where
  isEnabled : Bool
  mode : Mode
  rate : Float
  showPerNumber : Bool
  deriving DecidableEq

namespace Settings

/-- No tax; if one is switched on, 15 % are added. -/
def standard : Settings where
  isEnabled := false
  mode := .add15
  rate := 15
  showPerNumber := false

end Settings

end DeskCalculator.Tax
