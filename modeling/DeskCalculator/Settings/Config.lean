import DeskCalculator.Session.State
import DeskCalculator.Store.Backing
import DeskCalculator.Toml.Decode
import DeskCalculator.Toml.Document
import DeskCalculator.Number.Shortest

/-!
# The configuration

The configuration is a TOML document with three sections. What is missing has its default, and
unknown keys are passed over. It is written in full, except for a data file that is not given. A
missing configuration file is created with the defaults.

Specification: §E4.
-/

namespace DeskCalculator.Settings

/-- The configuration of the calculator. -/
structure Config where
  /-- Where values are stored, if not at the usual place. -/
  dataFile : Option String
  defaults : Defaults
  logLevel : String
  deriving DecidableEq

/-- Why a configuration cannot be read or written. -/
inductive ConfigError where
  /-- The file cannot be read or written. -/
  | io
  /-- The file is no configuration. -/
  | parse
  /-- The configuration has no text. -/
  | serialize
  deriving Repr, DecidableEq

/-- What an error message begins with. -/
def ConfigError.category : ConfigError → String
  | io => "I/O error"
  | parse => "could not parse config"
  | serialize => "could not serialize config"

namespace Config

/-- The configuration when nothing is configured. -/
def standard : Config where
  dataFile := none
  defaults := .standard
  logLevel := "info"

/-- The mode that a value stands for: its name, or a record whose only field has that name and is
empty. -/
def modeOfToml? : Toml → Option Tax.Mode
  | .string name => Tax.Mode.ofName? name
  | .table _ [(name, v)] => if v.isEmpty then Tax.Mode.ofName? name else none
  | _ => none

/-- The tax settings that a value stands for. -/
def taxOfToml? (v : Toml) : Option Tax.Settings := do
  let std := Tax.Settings.standard
  match ← v.fields? Tax.Settings.fieldNames with
  | [isEnabled, mode, rate, showPerNumber] =>
    return {
      isEnabled := ← Toml.orDefault? Toml.asBool? std.isEnabled isEnabled
      mode := ← Toml.orDefault? modeOfToml? std.mode mode
      rate := ← Toml.orDefault? Toml.asFloat? std.rate rate
      showPerNumber := ← Toml.orDefault? Toml.asBool? std.showPerNumber showPerNumber }
  | _ => none

/-- The defaults that a value stands for. -/
def defaultsOfToml? (v : Toml) : Option Defaults := do
  let std := Defaults.standard
  match ← v.fields? ["default_max_history", "default_button_layout", "default_tax"] with
  | [maxHistory, buttonLayout, tax] =>
    return {
      maxHistory := ← Toml.orDefault? Toml.asSize? std.maxHistory maxHistory
      buttonLayout := ← Toml.orDefault? Toml.asString? std.buttonLayout buttonLayout
      tax := ← Toml.orDefault? taxOfToml? std.tax tax }
  | _ => none

/-- The only field of a section with one. -/
def onlyField? (name : String) (read : Toml → Option α) (default : α) (v : Toml) : Option α := do
  match ← v.fields? [name] with
  | [field] => Toml.orDefault? read default field
  | _ => none

/-- The configuration of a document. -/
def ofMembers? (ms : Toml.Members) : Option Config := do
  return {
    dataFile := ← Toml.orDefault? (onlyField? "data_file" (fun v ↦ v.asString?.map some) none) none
      (Toml.find? "storage" ms)
    defaults := ← Toml.orDefault? defaultsOfToml? .standard (Toml.find? "calculator" ms)
    logLevel := ← Toml.orDefault? (onlyField? "level" Toml.asString? standard.logLevel)
      standard.logLevel (Toml.find? "logging" ms) }

/-- The configuration of a text. -/
def ofText? (cs : List Char) : Option Config := do
  ofMembers? (← Toml.readDocument? cs)

/-- A float as TOML writes it: the fewest digits that read back, a tie going up, without an
exponent. -/
def floatText (x : Float) : List Char :=
  let bits := Number.magnitudeBits x
  if Number.infinityBits < bits then ['n', 'a', 'n']
  else
    Number.signText (Number.isNegative x) ++
      (if bits = Number.infinityBits then ['i', 'n', 'f'] else Number.plainMagnitude .up bits)

/-- A truth value as TOML writes it. -/
def boolText (b : Bool) : List Char :=
  if b then "true".toList else "false".toList

/-- A key and its value on a line. -/
def memberLine (key : String) (value : List Char) : List Char :=
  key.toList ++ " = ".toList ++ value ++ ['\n']

/-- The header of a section on a line. -/
def headerLine (path : String) : List Char :=
  '[' :: path.toList ++ "]\n".toList

/-- The line of the data file, if there is one. -/
def dataFileLine : Option String → List Char
  | some path => memberLine "data_file" (Toml.quote path.toList)
  | none => []

/-- The text of a configuration whose sizes have one. -/
def textOf (c : Config) : List Char :=
  let d := c.defaults
  headerLine "storage" ++ dataFileLine c.dataFile ++ '\n' ::
    (headerLine "calculator" ++
      memberLine "default_max_history" (Number.digitsOf d.maxHistory) ++
      memberLine "default_button_layout" (Toml.quote d.buttonLayout.toList) ++ '\n' ::
    (headerLine "calculator.default_tax" ++
      memberLine "isEnabled" (boolText d.tax.isEnabled) ++
      memberLine "mode" (Toml.quote d.tax.mode.name.toList) ++
      memberLine "rate" (floatText d.tax.rate) ++
      memberLine "showTaxPerNumber" (boolText d.tax.showPerNumber) ++ '\n' ::
    (headerLine "logging" ++ memberLine "level" (Toml.quote c.logLevel.toList))))

/-- The text of a configuration. TOML has no integer of `2 ^ 63` or more. -/
def toText? (c : Config) : Option (List Char) :=
  if c.defaults.maxHistory < 2 ^ 63 then some c.textOf else none

/-- Writes a configuration to a file; gives what the file then holds. If nothing stands at the path,
its directory is created first, and `createsDirectory` says whether that works. `succeeds` says
whether writing works. -/
def save (c : Config) (before : Store.Contents) (succeeds : Bool)
    (createsDirectory : Bool := true) : Store.Contents × Except ConfigError Unit :=
  if before = .missing && !createsDirectory then (before, .error .io)
  else
    match c.toText? with
    | none => (before, .error .serialize)
    | some cs => if succeeds then (.text cs, .ok ()) else (before, .error .io)

/-- Reads the configuration from a file; gives also what the file then holds. A missing file is
written with the defaults, `succeeds` saying whether that works, and `createsDirectory` whether its
directory can be created. -/
def load (contents : Store.Contents) (succeeds : Bool) (createsDirectory : Bool := true) :
    Store.Contents × Except ConfigError Config :=
  match contents with
  | .missing =>
    match standard.save .missing succeeds createsDirectory with
    | (after, .ok ()) => (after, .ok standard)
    | (after, .error e) => (after, .error e)
  | .unreadable => (.unreadable, .error .io)
  | .text cs =>
    match ofText? cs with
    | some c => (.text cs, .ok c)
    | none => (.text cs, .error .parse)

end Config

end DeskCalculator.Settings
