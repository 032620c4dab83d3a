import DeskCalculator.Number.Decimal

/-!
# TOML values

A table remembers how it came to be, because that decides who may add to it: a table that was
written as a value is complete, one with a header is not opened twice, one that a longer header
implied may still get its own header, and one that dotted keys made may get more of them.
-/

namespace DeskCalculator

/-- How a table came to be. -/
inductive TableOrigin where
  /-- It was written as a value. -/
  | inline
  /-- It has a header of its own. -/
  | header
  /-- A header of one of its subtables implied it. -/
  | implied
  /-- Dotted keys made it. -/
  | dotted
  deriving Repr, DecidableEq

/-- A TOML value. -/
inductive Toml where
  | string (s : String)
  | integer (n : Int)
  | float (x : Float)
  | bool (b : Bool)
  /-- A date, a time or both; only its form is checked. -/
  | datetime
  | array (elements : List Toml)
  | table (origin : TableOrigin) (members : List (String × Toml))
  /-- Tables under repeated headers, each with its members. -/
  | tables (ts : List Toml)

namespace Toml

/-- The members of a table, in the order of the text. -/
abbrev Members := List (String × Toml)

/-- The value under a key. -/
def find? (key : String) : Members → Option Toml
  | [] => none
  | m :: ms => if m.1 = key then some m.2 else find? key ms

/-- The members with another value under a key, which is added if it is new. -/
def set (key : String) (value : Toml) : Members → Members
  | [] => [(key, value)]
  | m :: ms => if m.1 = key then (key, value) :: ms else m :: set key value ms

/-- Adds a value under a key that must be new. -/
def add? (key : String) (value : Toml) (ms : Members) : Option Members :=
  match find? key ms with
  | some _ => none
  | none => some (ms ++ [(key, value)])

/-- Changes the last of some tables. -/
def changeLast? (change : Members → Option Members) (ts : List Toml) : Option (List Toml) :=
  match ts.getLast? with
  | some (table origin ms) => (change ms).map fun ms ↦ ts.dropLast ++ [table origin ms]
  | _ => none

/-- Changes the table that a header path leads to. Tables on the way that are missing are implied;
of repeated tables the last is meant. -/
def changeAt? (change : Members → Option Members) : List String → Members → Option Members
  | [], ms => change ms
  | key :: path, ms =>
    match find? key ms with
    | none => (changeAt? change path []).map fun sub ↦ set key (table .implied sub) ms
    | some (table .inline _) => none
    | some (table origin sub) =>
      (changeAt? change path sub).map fun sub ↦ set key (table origin sub) ms
    | some (tables ts) =>
      (changeLast? (changeAt? change path) ts).map fun ts ↦ set key (tables ts) ms
    | some _ => none

/-- Adds a value under a dotted key to a table. The tables on the way must be implied ones, and the
last of them one that dotted keys make. -/
def addDotted? (key : String) (value : Toml) : List String → Members → Option Members
  | [], ms => add? key value ms
  | step :: path, ms =>
    match find? step ms with
    | none => (addDotted? key value path []).map fun sub ↦ set step (table .dotted sub) ms
    | some (table .dotted sub) =>
      (addDotted? key value path sub).map fun sub ↦ set step (table .dotted sub) ms
    | some (table .implied sub) =>
      if path.isEmpty then none
      else (addDotted? key value path sub).map fun sub ↦ set step (table .implied sub) ms
    | some (tables ts) =>
      if path.isEmpty then none
      else
        (changeLast? (addDotted? key value path) ts).map fun ts ↦ set step (tables ts) ms
    | some _ => none

/-- Opens the table of a header. -/
def openTable? (key : String) (ms : Members) : Option Members :=
  match find? key ms with
  | none => some (set key (table .header []) ms)
  | some (table .implied sub) => some (set key (table .header sub) ms)
  | some _ => none

/-- Opens another table of a repeated header. -/
def openRepeated? (key : String) (ms : Members) : Option Members :=
  match find? key ms with
  | none => some (set key (tables [table .header []]) ms)
  | some (tables ts) => some (set key (tables (ts ++ [table .header []])) ms)
  | some _ => none

end Toml

end DeskCalculator
