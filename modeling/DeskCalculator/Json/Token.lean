import DeskCalculator.Json.Numeral

/-!
# Tokens of a JSON text

The text is read one character at a time. `LexState` says which token is open; a token is given
out when it is complete. Blanks are the four of JSON. A string keeps every character and every
surrogate half until its end, where pairs are joined.
-/

namespace DeskCalculator.Json

/-- What a JSON text is made of. -/
inductive Token where
  | openArray
  | closeArray
  | openObject
  | closeObject
  | colon
  | comma
  /-- A string; none if it names half a surrogate pair. -/
  | string (s : Option String)
  /-- Any other value that has no parts. -/
  | atom (value : Json)

/-- A part of a string: a character, or a half of a surrogate pair. -/
inductive StringPart where
  | char (c : Char)
  | half (code : Nat)
  deriving Repr, DecidableEq

namespace StringPart

/-- The part that a number of 16 bits names. -/
def ofCode (code : Nat) : StringPart :=
  if 0xD800 ≤ code ∧ code < 0xE000 then half code else char (Char.ofNat code)

/-- The characters of parts: a high half and the low half after it are one character, and no other
half is allowed. -/
def join? : List StringPart → Option (List Char)
  | [] => some []
  | char c :: rest => (c :: ·) <$> join? rest
  | half high :: half low :: rest =>
    if high < 0xDC00 ∧ 0xDC00 ≤ low then
      (Char.ofNat (0x10000 + (high - 0xD800) * 0x400 + (low - 0xDC00)) :: ·) <$> join? rest
    else none
  | half _ :: _ => none

end StringPart

/-- The value of a hexadecimal digit of either case. -/
def hexValue? (c : Char) : Option Nat :=
  if '0' ≤ c ∧ c ≤ '9' then some (c.toNat - '0'.toNat)
  else if 'a' ≤ c ∧ c ≤ 'f' then some (c.toNat - 'a'.toNat + 10)
  else if 'A' ≤ c ∧ c ≤ 'F' then some (c.toNat - 'A'.toNat + 10)
  else none

/-- The character that a letter after a backslash stands for. -/
def escaped? : Char → Option Char
  | '"' => some '"'
  | '\\' => some '\\'
  | '/' => some '/'
  | 'b' => some '\x08'
  | 'f' => some '\x0c'
  | 'n' => some '\n'
  | 'r' => some '\r'
  | 't' => some '\t'
  | _ => none

/-- Whether a character separates tokens. -/
def isGap (c : Char) : Bool :=
  c == ' ' || c == '\n' || c == '\t' || c == '\r'

/-- The token that a character makes by itself. -/
def punctuation? : Char → Option Token
  | '[' => some .openArray
  | ']' => some .closeArray
  | '{' => some .openObject
  | '}' => some .closeObject
  | ':' => some .colon
  | ',' => some .comma
  | _ => none

/-- Whether a character can stand in a numeral or in one of the three words. -/
def isBareChar (c : Char) : Bool :=
  c.isAlphanum || c == '-' || c == '+' || c == '.'

/-- The value of a run of characters without quotes. -/
def bareValue? (run : List Char) : Option Json :=
  if run = ['n', 'u', 'l', 'l'] then some null
  else if run = ['t', 'r', 'u', 'e'] then some (bool true)
  else if run = ['f', 'a', 'l', 's', 'e'] then some (bool false)
  else (Numeral.read? run).map Numeral.value

/-- Which token is open. What has been read of it is held in reverse. -/
inductive LexState where
  | between
  | bare (read : List Char)
  | inString (read : List StringPart)
  /-- After a backslash. -/
  | escape (read : List StringPart)
  /-- In the digits after a backslash and `u`: how many are owed, and the number so far. -/
  | code (read : List StringPart) (owed number : Nat)

/-- The string whose parts have been read. -/
def stringToken (read : List StringPart) : Token :=
  .string ((StringPart.join? read.reverse).map String.ofList)

/-- Reads a character where no token is open. -/
def beginToken (c : Char) : Option (List Token × LexState) :=
  if isGap c then some ([], .between)
  else if c = '"' then some ([], .inString [])
  else if isBareChar c then some ([], .bare [c])
  else (punctuation? c).map fun t ↦ ([t], .between)

/-- Reads a character; gives the tokens that are then complete. -/
def lexStep (s : LexState) (c : Char) : Option (List Token × LexState) :=
  match s with
  | .between => beginToken c
  | .bare read =>
    if isBareChar c then some ([], .bare (c :: read))
    else do
      let value ← bareValue? read.reverse
      let (ts, s) ← beginToken c
      return (.atom value :: ts, s)
  | .inString read =>
    if c = '"' then some ([stringToken read], .between)
    else if c = '\\' then some ([], .escape read)
    else if c.toNat < 0x20 then none
    else some ([], .inString (.char c :: read))
  | .escape read =>
    if c = 'u' then some ([], .code read 4 0)
    else (escaped? c).map fun e ↦ ([], .inString (.char e :: read))
  | .code read owed number => do
    let digit ← hexValue? c
    let number := 16 * number + digit
    if owed ≤ 1 then return ([], .inString (.ofCode number :: read))
    else return ([], .code read (owed - 1) number)

/-- The tokens of the rest of a text. -/
def lex (s : LexState) : List Char → Option (List Token)
  | [] =>
    match s with
    | .between => some []
    | .bare read => (bareValue? read.reverse).map fun v ↦ [.atom v]
    | _ => none
  | c :: cs => do
    let (ts, s) ← lexStep s c
    return ts ++ (← lex s cs)

/-- The tokens of a text. -/
def tokens? (cs : List Char) : Option (List Token) :=
  lex .between cs

end DeskCalculator.Json
