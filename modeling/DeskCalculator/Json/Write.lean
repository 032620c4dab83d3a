import DeskCalculator.Json.Value

/-!
# Writing JSON

A value has two texts: a compact one without blanks, and one that puts each element and member on a
line of its own, two spaces deeper than what holds it. A double is written with the fewest digits
that read back, a tie going to the even digit, and always with a point or an exponent, so that it
stays apart from an integer.
-/

namespace DeskCalculator.Json

/-- The hexadecimal digits, small letters. -/
def hexDigit (n : Nat) : Char :=
  Nat.digitChar (n % 16)

/-- How one character stands in a string. -/
def escapeChar (c : Char) : List Char :=
  if c = '"' then ['\\', '"']
  else if c = '\\' then ['\\', '\\']
  else if c = '\x08' then ['\\', 'b']
  else if c = '\x0c' then ['\\', 'f']
  else if c = '\n' then ['\\', 'n']
  else if c = '\r' then ['\\', 'r']
  else if c = '\t' then ['\\', 't']
  else if c.toNat < 0x20 then ['\\', 'u', '0', '0', hexDigit (c.toNat / 16), hexDigit c.toNat]
  else [c]

/-- A string between quotes. -/
def stringText (s : String) : List Char :=
  '"' :: s.toList.flatMap escapeChar ++ ['"']

/-- An integer in decimal. -/
def integerText (n : Int) : List Char :=
  Number.signText (n < 0) ++ Number.digitsOf n.natAbs

/-- A finite double. -/
def floatText (x : Float) : List Char :=
  Number.signText (Number.isNegative x) ++ Number.scaledMagnitudeText .even (Number.magnitudeBits x)

mutual

/-- The compact text of a value. -/
def compact : Json → List Char
  | null | unreadable => ['n', 'u', 'l', 'l']
  | bool true => ['t', 'r', 'u', 'e']
  | bool false => ['f', 'a', 'l', 's', 'e']
  | integer n => integerText n
  | float x => floatText x
  | string s => stringText s
  | array [] => ['[', ']']
  | array (v :: vs) => '[' :: compact v ++ compactElements vs
  | object [] => ['{', '}']
  | object ((key, v) :: ms) => '{' :: stringText key ++ ':' :: compact v ++ compactMembers ms

/-- The rest of an array after an element. -/
def compactElements : List Json → List Char
  | [] => [']']
  | v :: vs => ',' :: compact v ++ compactElements vs

/-- The rest of an object after a member. -/
def compactMembers : List (String × Json) → List Char
  | [] => ['}']
  | (key, v) :: ms => ',' :: stringText key ++ ':' :: compact v ++ compactMembers ms

end

/-- A new line, indented by two spaces for each level. -/
def newLine (level : Nat) : List Char :=
  '\n' :: List.replicate (2 * level) ' '

mutual

/-- The indented text of a value that stands at a level. -/
def pretty (level : Nat) : Json → List Char
  | null | unreadable => ['n', 'u', 'l', 'l']
  | bool true => ['t', 'r', 'u', 'e']
  | bool false => ['f', 'a', 'l', 's', 'e']
  | integer n => integerText n
  | float x => floatText x
  | string s => stringText s
  | array [] => ['[', ']']
  | array (v :: vs) =>
    '[' :: newLine (level + 1) ++ pretty (level + 1) v ++ prettyElements level vs
  | object [] => ['{', '}']
  | object ((key, v) :: ms) =>
    '{' :: newLine (level + 1) ++ stringText key ++ ':' :: ' ' :: pretty (level + 1) v ++
      prettyMembers level ms

/-- The rest of an array at a level after an element. -/
def prettyElements (level : Nat) : List Json → List Char
  | [] => newLine level ++ [']']
  | v :: vs => ',' :: newLine (level + 1) ++ pretty (level + 1) v ++ prettyElements level vs

/-- The rest of an object at a level after a member. -/
def prettyMembers (level : Nat) : List (String × Json) → List Char
  | [] => newLine level ++ ['}']
  | (key, v) :: ms =>
    ',' :: newLine (level + 1) ++ stringText key ++ ':' :: ' ' :: pretty (level + 1) v ++
      prettyMembers level ms

end

end DeskCalculator.Json
