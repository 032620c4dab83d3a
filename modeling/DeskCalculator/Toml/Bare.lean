import DeskCalculator.Number.Literal
import DeskCalculator.Toml.Value

/-!
# Bare values in TOML

Truth values, integers, floats, dates and times stand without quotes. Each is one run of letters,
digits and a few signs; only a date and a time may have a space between them.
-/

namespace DeskCalculator.Toml

/-- Whether a character can stand in a bare value. -/
def isBareChar (c : Char) : Bool :=
  c.isAlphanum || c == '_' || c == '+' || c == '-' || c == '.' || c == ':'

/-- Digits of a kind, with single underscores between them. The flag says whether an underscore may
come next. -/
def stripUnderscores? (isDigit : Char → Bool) (afterDigit : Bool) : List Char → Option (List Char)
  | [] => if afterDigit then some [] else none
  | c :: cs =>
    if isDigit c then (c :: ·) <$> stripUnderscores? isDigit true cs
    else if c = '_' ∧ afterDigit then stripUnderscores? isDigit false cs
    else none

/-- The digits of a decimal integer without a sign: no zero stands before others. -/
def decimalDigits? (cs : List Char) : Option (List Char) :=
  if cs.head? = some '0' ∧ cs.length ≠ 1 then none else stripUnderscores? Char.isDigit false cs

/-- The number that digits to a base denote. -/
def baseValue (base : Nat) (digits : List Char) : Nat :=
  let value (c : Char) : Nat :=
    if c.isDigit then c.toNat - '0'.toNat else c.toLower.toNat - 'a'.toNat + 10
  digits.foldl (fun n c ↦ base * n + value c) 0

/-- Whether a character is a hexadecimal digit. -/
def isHexDigit (c : Char) : Bool :=
  c.isDigit || ('a' ≤ c && c ≤ 'f') || ('A' ≤ c && c ≤ 'F')

/-- The integer that a run spells, in any base, without regard to size. -/
def readInteger? : List Char → Option Int
  | '0' :: 'x' :: cs => (stripUnderscores? isHexDigit false cs).map fun ds ↦ baseValue 16 ds
  | '0' :: 'o' :: cs =>
    (stripUnderscores? (fun c ↦ '0' ≤ c && c ≤ '7') false cs).map fun ds ↦ baseValue 8 ds
  | '0' :: 'b' :: cs =>
    (stripUnderscores? (fun c ↦ c == '0' || c == '1') false cs).map fun ds ↦ baseValue 2 ds
  | cs =>
    let (negative, digits) := Number.splitSign cs
    (decimalDigits? digits).map fun ds ↦
      let n := Number.valueOf ds
      if negative then -(n : Int) else n

/-- The exponent that a text after its `e` spells. -/
def readExponent? (cs : List Char) : Option Int :=
  let (negative, digits) := Number.splitSign cs
  (stripUnderscores? Char.isDigit false digits).map fun ds ↦
    let n := Number.valueOf ds
    if negative then -(n : Int) else n

/-- Whether a character begins an exponent. -/
def isExponentMark (c : Char) : Bool :=
  c == 'e' || c == 'E'

/-- The float that a run spells. One too large is refused unless it is negative. -/
def readFloat? (cs : List Char) : Option Float := do
  let (negative, body) := Number.splitSign cs
  if body = ['i', 'n', 'f'] then return Number.ofMagnitude negative Number.infinityBits
  if body = ['n', 'a', 'n'] then return 0.0 / 0.0
  let mantissa := body.takeWhile fun c ↦ !isExponentMark c
  let tail := body.dropWhile fun c ↦ !isExponentMark c
  let whole := mantissa.takeWhile (· != '.')
  let afterPoint := mantissa.dropWhile (· != '.')
  if afterPoint = [] ∧ tail = [] then none
  let whole ← decimalDigits? whole
  let fraction ← if afterPoint = [] then some [] else
    stripUnderscores? Char.isDigit false afterPoint.tail
  let power ← if tail = [] then some 0 else readExponent? tail.tail
  let x := Number.ofDecimal negative (Number.valueOf (whole ++ fraction)) (power - fraction.length)
  if x.isInf && !negative then none else some x

/-- The number that two digits spell, if it is at most `limit`. -/
def twoDigits? (limit : Nat) (a b : Char) : Option Nat :=
  if a.isDigit ∧ b.isDigit ∧ Number.valueOf [a, b] ≤ limit then some (Number.valueOf [a, b])
  else none

/-- How many days a month has. -/
def daysIn (year month : Nat) : Nat :=
  if month = 2 then
    if year % 4 = 0 ∧ (year % 100 ≠ 0 ∨ year % 400 = 0) then 29 else 28
  else if month = 4 ∨ month = 6 ∨ month = 9 ∨ month = 11 then 30
  else 31

/-- Reads a date at the beginning of a run; gives the rest. -/
def skipDate? : List Char → Option (List Char)
  | a :: b :: c :: d :: '-' :: e :: f :: '-' :: g :: h :: rest => do
    let _ ← twoDigits? 99 a b
    let _ ← twoDigits? 99 c d
    let month ← twoDigits? 12 e f
    let day ← twoDigits? (daysIn (Number.valueOf [a, b, c, d]) month) g h
    if month = 0 ∨ day = 0 then none else some rest
  | _ => none

/-- Reads a time at the beginning of a run; gives the rest. -/
def skipTime? : List Char → Option (List Char)
  | a :: b :: ':' :: c :: d :: ':' :: e :: f :: rest => do
    let _ ← twoDigits? 23 a b
    let _ ← twoDigits? 59 c d
    let _ ← twoDigits? 60 e f
    match rest with
    | '.' :: g :: rest => if g.isDigit then some (rest.dropWhile Char.isDigit) else none
    | rest => some rest
  | _ => none

/-- Whether a text is nothing or the distance of a time from the universal one. -/
def isOffset : List Char → Bool
  | [] | ['Z'] | ['z'] => true
  | [s, a, b, ':', c, d] =>
    (s == '+' || s == '-') && (twoDigits? 23 a b).isSome && (twoDigits? 59 c d).isSome
  | _ => false

/-- Whether a run is a date and a time with a letter between them, a date, or a time. -/
def isDatetime (run : List Char) : Bool :=
  match skipDate? run with
  | some [] => true
  | some (t :: rest) => (t == 'T' || t == 't') && (skipTime? rest).any isOffset
  | none => skipTime? run == some []

/-- The value that a run spells. -/
def readBare? (run : List Char) : Option Toml :=
  if run = ['t', 'r', 'u', 'e'] then some (bool true)
  else if run = ['f', 'a', 'l', 's', 'e'] then some (bool false)
  else if isDatetime run then some datetime
  else
    match readFloat? run with
    | some x => some (float x)
    | none => do
      let n ← readInteger? run
      if -2 ^ 63 ≤ n ∧ n < 2 ^ 63 then some (integer n) else none

/-- Reads the bare value that a text begins with. A date may be followed by a space and a time. -/
def readBareValue? (cs : List Char) : Option (Toml × List Char) :=
  let run := cs.takeWhile isBareChar
  let rest := cs.dropWhile isBareChar
  match rest with
  | ' ' :: d :: more =>
    if d.isDigit then
      let time := (d :: more).takeWhile isBareChar
      if skipDate? run = some [] ∧ (skipTime? time).any isOffset then
        some (datetime, (d :: more).dropWhile isBareChar)
      else none
    else (readBare? run).map (·, rest)
  | _ => (readBare? run).map (·, rest)

end DeskCalculator.Toml
