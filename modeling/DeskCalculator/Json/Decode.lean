import DeskCalculator.Json.Read

/-!
# Values of known shape

A record is an object, or an array with its fields in order. In an object unknown fields are passed
over, and a known field that is given twice is refused. A field is read from what stands in its
place, if anything does.
-/

namespace DeskCalculator.Json

/-- A truth value. -/
def asBool? : Json → Option Bool
  | bool b => some b
  | _ => none

/-- A string. -/
def asString? : Json → Option String
  | string s => some s
  | _ => none

/-- An integer of 64 bits with a sign. -/
def asSigned? : Json → Option Int
  | integer n => if -2 ^ 63 ≤ n ∧ n < 2 ^ 63 then some n else none
  | _ => none

/-- An integer of 64 bits without a sign. -/
def asSize? : Json → Option Nat
  | integer n => if 0 ≤ n ∧ n < 2 ^ 64 then some n.toNat else none
  | _ => none

/-- A double; an integer is rounded to one. -/
def asFloat? : Json → Option Float
  | float x => some x
  | integer n => some (Number.ofDecimal (n < 0) n.natAbs 0)
  | _ => none

/-- A value that may be missing: null stands for none. -/
def asOptional? (read : Json → Option α) : Json → Option (Option α)
  | null => some none
  | v => (read v).map some

/-- All elements of an array. -/
def asList? (read : Json → Option α) : Json → Option (List α)
  | array elements => elements.mapM read
  | _ => none

/-- The fields of a record: what stands in the place of each of `names`, in order. -/
def fields? (names : List String) : Json → Option (List (Option Json))
  | array elements =>
    if elements.length ≤ names.length then
      some (elements.map some ++ List.replicate (names.length - elements.length) none)
    else none
  | object members =>
    if names.all fun name ↦ (members.countP fun m ↦ m.1 == name) ≤ 1 then
      some (names.map fun name ↦ findMember? name members)
    else none
  | _ => none

/-- A field that must be there. -/
def required? (read : Json → Option α) (field : Option Json) : Option α :=
  field.bind read

/-- A field with a value for its absence. -/
def orDefault? (read : Json → Option α) (default : α) : Option Json → Option α
  | some v => read v
  | none => some default

end DeskCalculator.Json
