import DeskCalculator.Settings.Config

/-!
# Where files stand

The store and the configuration stand in a folder of the calculator inside the user's data and
configuration directories. An environment variable names such a directory only if it holds an
absolute path; otherwise it is the usual one in the home directory.

Specification: §E4 and §E5.
-/

namespace DeskCalculator.Settings

/-- The variables of the environment that say where files stand. -/
structure Environment where
  home : Option String
  dataHome : Option String
  configHome : Option String

/-- Whether a path begins at the root. -/
def isAbsolute (path : String) : Bool :=
  path.toList.head? == some '/'

/-- A path with another one inside it. -/
def joinPath (base part : String) : String :=
  if isAbsolute part || base.isEmpty then part
  else if base.toList.getLast? = some '/' then base ++ part
  else base ++ "/" ++ part

/-- The directory that a variable names, or one in the home directory. Without a home directory it
is the current one. -/
def directory (named home : Option String) (usual : String) : String :=
  match named.filter isAbsolute with
  | some path => path
  | none =>
    match home.filter (!·.isEmpty) with
    | some home => joinPath home usual
    | none => "."

/-- A file in the folder of the calculator. -/
def ownFile (base name : String) : String :=
  joinPath (joinPath base "taxcalc") name

namespace Environment

/-- The usual place of the store. -/
def storePath (e : Environment) : String :=
  ownFile (directory e.dataHome e.home ".local/share") "store.json"

/-- The place of the configuration. -/
def configPath (e : Environment) : String :=
  ownFile (directory e.configHome e.home ".config") "config.toml"

/-- The place of the store under a configuration. -/
def dataPath (e : Environment) (c : Config) : String :=
  c.dataFile.getD e.storePath

end Environment

end DeskCalculator.Settings
