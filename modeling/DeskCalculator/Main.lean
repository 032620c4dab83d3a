import DeskCalculator.Console.Dispatch
import DeskCalculator.Console.Program
import Std.Time

/-!
# The command line

Connects the program to the clock, the environment, the files and the standard streams, which are
the terminal it converses over. What a line does and what is printed is decided in `Console`.

Specification: §E8.
-/

namespace DeskCalculator.CommandLine

/-- What the clock shows, in local time; in universal time if the local zone is not known. -/
def readClock : IO History.Clock := do
  let now ← Std.Time.Timestamp.now
  let local? ←
    (some <$> Std.Time.Database.defaultGetLocalZoneRules).catchExceptions fun _ ↦ pure none
  let rules := local?.getD .UTC
  let moment := Std.Time.DateTime.ofTimestamp now rules
  return {
    millis := now.toMillisecondsSinceUnixEpoch.val
    year := moment.year.toInt.toNat
    month := moment.month.toNat
    day := moment.day.toNat
    hour := moment.hour.toNat
    minute := moment.minute.toNat }

/-- What a file holds. -/
def readContents (path : String) : IO Store.Contents := do
  try
    return .ofBytes (← IO.FS.readBinFile path)
  catch
    | .noFileOrDirectory .. => return .missing
    | _ => return .unreadable

/-- Does something and says whether that worked. -/
def attempt (act : IO Unit) : IO Bool := do
  try
    act
    return true
  catch _ => return false

/-- The directory of a path. -/
def parentDirectory (path : String) : String :=
  String.ofList (path.toList.reverse.dropWhile (· != '/')).reverse

/-- Creates the directory of a path. -/
def createParent (path : String) : IO Bool := do
  let parent := parentDirectory path
  if parent.isEmpty then return true else attempt (IO.FS.createDirAll parent)

/-- Writes a file. -/
def writeContents (path : String) (contents : List Char) : IO Bool :=
  attempt (IO.FS.writeFile path (String.ofList contents))

/-- Reads the configuration; a missing one is written first. -/
def loadConfig (path : String) : IO (Except Settings.ConfigError Settings.Config) := do
  let before ← readContents path
  let creates ← if before = .missing then createParent path else pure true
  let succeeds ←
    match (Settings.Config.load before true creates).1 with
    | .text contents => if before = .missing then writeContents path contents else pure true
    | _ => pure true
  return (Settings.Config.load before succeeds creates).2

/-- The bytes of the next line with its line feed; empty at the end of the input. -/
partial def readLine (input : IO.FS.Stream) (line : ByteArray) : IO ByteArray := do
  let byte ← input.read 1
  if byte.isEmpty then return line
  let line := line ++ byte
  if byte[0]? = some 10 then return line else readLine input line

/-- The standard streams, with a store in the file at a path. -/
abbrev Shell := ReaderT String (StateT Store.File IO)

instance : Terminal Shell where
  get key := return Store.get? (← get).entries key
  set write := do
    let path ← read
    let file ← get
    let written ← createParent path <&&>
      writeContents path (Store.File.entriesText (Store.put file.entries write))
    let (file, result) := file.set write written
    set file
    return result
  notify message := IO.print (Console.line ["* ", message])
  print text := IO.print text
  nextLine := do
    (← IO.getStdout).flush
    match Console.lines (← readLine (← IO.getStdin) .empty).data.toList with
    | text :: _ => return some (← readClock, text)
    | [] => return none

end DeskCalculator.CommandLine

open DeskCalculator CommandLine

/-- Runs the calculator. -/
def main : IO Unit := do
  let environment : Settings.Environment :=
    { home := ← IO.getEnv "HOME"
      dataHome := ← IO.getEnv "XDG_DATA_HOME"
      configHome := ← IO.getEnv "XDG_CONFIG_HOME" }
  let (config, error?) := Console.usedConfig (← loadConfig environment.configPath)
  if let some e := error? then
    (← IO.getStderr).putStrLn ("Error loading config: " ++ e.category)
  let path := environment.dataPath config
  let conversation : Shell Unit := Console.converse config.defaults (2 ^ 64)
  let _ ← (conversation.run path).run (.load (← readContents path))
  (← IO.getStdout).flush
