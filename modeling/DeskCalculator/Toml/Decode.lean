import DeskCalculator.Toml.Value

/-!
# Values of known shape

A record is a table, or an array with its fields in order; what an array holds beyond them is passed
over, and so are unknown keys of a table. A date holds none of the fields.
-/

namespace DeskCalculator.Toml

/-- A truth value. -/
def asBool? : Toml → Option Bool
  | bool b => some b
  | _ => none

/-- A string. -/
def asString? : Toml → Option String
  | string s => some s
  | _ => none

/-- An integer that is not negative. -/
def asSize? : Toml → Option Nat
  | integer n => if 0 ≤ n then some n.toNat else none
  | _ => none

/-- A float; an integer is rounded to one. -/
def asFloat? : Toml → Option Float
  | float x => some x
  | integer n => some (Number.ofDecimal (n < 0) n.natAbs 0)
  | _ => none

/-- The first of some values, as many as there are names; missing ones are none. -/
def positional (names : List String) (values : List Toml) : List (Option Toml) :=
  (values.take names.length).map some ++ List.replicate (names.length - values.length) none

/-- The fields of a record: what stands in the place of each of `names`, in order. -/
def fields? (names : List String) : Toml → Option (List (Option Toml))
  | table _ members => some (names.map fun name ↦ find? name members)
  | array elements => some (positional names elements)
  | tables ts => some (positional names ts)
  | datetime => some (names.map fun _ ↦ none)
  | _ => none

/-- A field with a value for its absence. -/
def orDefault? (read : Toml → Option α) (default : α) : Option Toml → Option α
  | some v => read v
  | none => some default

/-- Whether a value has no parts: an empty array or table. -/
def isEmpty : Toml → Bool
  | array [] | table _ [] | tables [] => true
  | _ => false

end DeskCalculator.Toml
