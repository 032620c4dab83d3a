import DeskCalculator.Console.Lines
import DeskCalculator.Console.Respond
import DeskCalculator.Settings.Place

/-!
# The whole program

The program reads its configuration, restores the session from the store, shows the state and
answers lines until one of them ends it or is no text. Without a readable configuration it goes on
with the defaults. `run` tells what all of this prints and leaves in the files, given what the files
hold at the start and what the clock shows at each line.

Specification: §E8.
-/

namespace DeskCalculator.Console

/-- Answers a line and stores what it asks for. -/
def answer (d : Desk Store.File) (now : History.Clock) (succeeds : Nat → Bool) (text : List Char) :
    Desk Store.File × Response :=
  let response := respond d.session now text
  (⟨response.session, Desk.storeAll d.store response.writes succeeds⟩, response)

/-- Answers lines in order, the first one at the reading `clock n`. Gives the desk at the end and
what was printed. -/
def answerAll (clock : Nat → History.Clock) :
    (n : Nat) → Desk Store.File → List (Option (List Char)) → Desk Store.File × String
  | _, d, [] => (d, "")
  | _, d, none :: _ => (d, "")
  | n, d, some text :: rest =>
    let (d, response) := answer d (clock n) (fun _ ↦ true) text
    if response.goesOn then
      let (d, printed) := answerAll clock (n + 1) d rest
      (d, response.printed ++ printed)
    else (d, response.printed)

/-- What a run of the program leaves behind. -/
structure Transcript where
  printed : String
  /-- Why the configuration could not be used. -/
  configError : Option Settings.ConfigError
  /-- What the configuration file holds. -/
  configFile : Store.Contents
  /-- The session and its store. -/
  desk : Desk Store.File
  /-- Where the store stands. -/
  storePath : String

/-- The configuration that is used, and why it is not that of the file. -/
def usedConfig : Except Settings.ConfigError Settings.Config →
    Settings.Config × Option Settings.ConfigError
  | .ok c => (c, none)
  | .error e => (.standard, some e)

/-- Runs the program on its input. -/
def run (environment : Settings.Environment) (files : String → Store.Contents)
    (clock : Nat → History.Clock) (input : List UInt8) : Transcript :=
  let (configFile, loaded) := Settings.Config.load (files environment.configPath) true
  let (config, configError) := usedConfig loaded
  let storePath := environment.dataPath config
  let desk := Desk.restore (Store.File.load (files storePath)) config.defaults
  let (last, printed) := answerAll clock 0 desk (lines input)
  { printed := stateText desk.session ++ printed, configError, configFile, desk := last, storePath }

end DeskCalculator.Console
