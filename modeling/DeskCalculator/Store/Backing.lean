import DeskCalculator.Json.Write
import DeskCalculator.Store.Entries

/-!
# Where stored values live

A store in memory keeps a value or fails and keeps nothing. A store in a file holds all entries in
one JSON object and writes the whole file for every value; it keeps a new value in memory even when
the file cannot be written. Whether a write succeeds is handed in.

Specification: §6 and §E5.
-/

namespace DeskCalculator.Store

/-- What stands at a path. -/
inductive Contents where
  /-- There is no file. -/
  | missing
  /-- There is something that cannot be read as text. -/
  | unreadable
  /-- There is a file with a text. -/
  | text (cs : List Char)
  deriving Repr, DecidableEq

/-- The contents of a file with given bytes, which must be UTF-8 to be a text. -/
def Contents.ofBytes (bytes : ByteArray) : Contents :=
  match String.fromUTF8? bytes with
  | some s => text s.toList
  | none => unreadable

/-- Why a store cannot do what it is asked for. -/
inductive StoreError where
  /-- The file cannot be read or written. -/
  | io
  /-- The text of the file is no JSON object. -/
  | json
  deriving Repr, DecidableEq

/-- What an error message begins with. -/
def StoreError.category : StoreError → String
  | io => "I/O error"
  | json => "JSON error"

/-- A place that keeps values under keys. -/
class Backing (σ : Type) where
  /-- What is kept. -/
  entries : σ → Entries
  /-- Stores a value; the flag says whether writing succeeds. -/
  set : σ → Write → Bool → σ × Except StoreError Unit

/-- A store in memory. -/
structure Memory where
  entries : Entries := []

instance : Backing Memory where
  entries := Memory.entries
  set m w succeeds := if succeeds then (⟨put m.entries w⟩, .ok ()) else (m, .error .io)

/-- A store in a file: what it keeps in memory, and what the file holds. -/
structure File where
  entries : Entries
  contents : Contents

namespace File

/-- The entries that a file holds. -/
def readEntries : Contents → Except StoreError Entries
  | .text cs =>
    match Json.readStored? cs with
    | some (.object members) => .ok members
    | _ => .error .json
  | _ => .error .io

/-- The text of a file that holds some entries. -/
def entriesText (entries : Entries) : List Char :=
  Json.pretty 0 (.object entries)

/-- A store on a file. A file that cannot be read counts as empty. -/
def load (contents : Contents) : File :=
  ⟨(readEntries contents).toOption.getD [], contents⟩

/-- Stores a value. -/
def set (f : File) (w : Write) (succeeds : Bool) : File × Except StoreError Unit :=
  let entries := put f.entries w
  if succeeds then (⟨entries, .text (entriesText entries)⟩, .ok ())
  else (⟨entries, f.contents⟩, .error .io)

end File

instance : Backing File where
  entries := File.entries
  set := File.set

end DeskCalculator.Store
