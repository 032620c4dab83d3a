import DeskCalculator.Json.Token

/-!
# Reading JSON

The tokens are read once. The arrays and objects that are open stand on a stack, and a complete
value goes to the innermost of them. `read?` keeps members as they come; `readStored?` gives the
value as a store keeps it and refuses what it could not keep: unreadable parts, and nesting
beyond `maxDepth`.
-/

namespace DeskCalculator.Json

/-- An array or object that is open; what has been read of it is held in reverse. -/
inductive Frame where
  | array (read : List Json)
  /-- An object with the key of the member that is being read; none if the key is unreadable. -/
  | object (read : List (Option String × Json)) (key : Option String)

/-- An object of members that have been read. -/
def ofMembers (read : List (Option String × Json)) : Json :=
  match read.reverse.mapM fun m ↦ m.1.map (·, m.2) with
  | some members => .object members
  | none => .unreadable

/-- What must follow. -/
inductive ReadState where
  /-- A value. -/
  | value (stack : List Frame)
  /-- The first element of an array, or its end. -/
  | firstElement (stack : List Frame)
  /-- The first key of an object, or its end. -/
  | firstKey (stack : List Frame)
  /-- A key. -/
  | key (read : List (Option String × Json)) (stack : List Frame)
  /-- The colon after a key. -/
  | colon (read : List (Option String × Json)) (key : Option String) (stack : List Frame)
  /-- What comes after a complete value in an array. -/
  | afterElement (read : List Json) (stack : List Frame)
  /-- What comes after a complete value in an object. -/
  | afterMember (read : List (Option String × Json)) (stack : List Frame)
  /-- Nothing: the value is complete. -/
  | done (value : Json)

/-- Gives a complete value to what is open. -/
def supply (v : Json) : List Frame → ReadState
  | [] => .done v
  | .array read :: stack => .afterElement (v :: read) stack
  | .object read key :: stack => .afterMember ((key, v) :: read) stack

/-- Reads a token where a value must begin. -/
def beginValue (stack : List Frame) : Token → Option ReadState
  | .openArray => some (.firstElement stack)
  | .openObject => some (.firstKey stack)
  | .string (some s) => some (supply (.string s) stack)
  | .string none => some (supply .unreadable stack)
  | .atom v => some (supply v stack)
  | _ => none

/-- Reads a token. -/
def readStep (s : ReadState) (t : Token) : Option ReadState :=
  match s, t with
  | .value stack, t => beginValue stack t
  | .firstElement stack, .closeArray => some (supply (.array []) stack)
  | .firstElement stack, t => beginValue (.array [] :: stack) t
  | .firstKey stack, .closeObject => some (supply (.object []) stack)
  | .firstKey stack, .string key => some (.colon [] key stack)
  | .key read stack, .string key => some (.colon read key stack)
  | .colon read key stack, .colon => some (.value (.object read key :: stack))
  | .afterElement read stack, .comma => some (.value (.array read :: stack))
  | .afterElement read stack, .closeArray => some (supply (.array read.reverse) stack)
  | .afterMember read stack, .comma => some (.key read stack)
  | .afterMember read stack, .closeObject => some (supply (ofMembers read) stack)
  | _, _ => none

/-- Reads tokens in order. -/
def readTokens (s : ReadState) : List Token → Option ReadState
  | [] => some s
  | t :: ts => do readTokens (← readStep s t) ts

/-- The value of a text. -/
def read? (cs : List Char) : Option Json := do
  match ← readTokens (.value []) (← tokens? cs) with
  | .done v => some v
  | _ => none

/-- How deep a stored value may be nested. -/
def maxDepth : Nat := 127

/-- The value of a text as a store keeps it. -/
def readStored? (cs : List Char) : Option Json := do
  let v ← read? cs
  if v.isReadable && v.depth ≤ maxDepth then some v.sorted else none

end DeskCalculator.Json
