import DeskCalculator.Buffer.Key

/-!
# Editing the buffer

Each key press takes the buffer to the next one. The buffer starts as `0`, which the first key
replaces. A multiplication sign is put in where a value would follow a value, a number gets one
point and no leading zeros, and an operator replaces the operators before it, except that a minus
may follow `×` and `÷`.

Specification: §4.5.
-/

namespace DeskCalculator.Buffer

open Expression (isLiteralChar)

/-- The buffer of an empty display. -/
def zero : List Char := ['0']

/-- The number at the end of a buffer: its last run of digits and points. -/
def trailingNumber (b : List Char) : List Char :=
  (b.reverse.takeWhile isLiteralChar).reverse

/-- A buffer without the operators at its end. -/
def dropOperators (b : List Char) : List Char :=
  (b.reverse.dropWhile isOperatorGlyph).reverse

/-- Whether the end of a buffer asks for a value: it is empty or ends with an operator or an
opening parenthesis. -/
def wantsValue (b : List Char) : Bool :=
  b.getLast?.all fun c ↦ isOperatorGlyph c || c == '('

/-- Whether a character is the last one of a buffer. -/
def endsIn (b : List Char) (c : Char) : Bool :=
  b.getLast? == some c

/-- Types digits that are not all zeros (§4.5, rules c and e). -/
def appendDigits (b run : List Char) : List Char :=
  if trailingNumber b = ['0'] then b.dropLast ++ run
  else if endsIn b ')' then b ++ '×' :: run
  else b ++ run

/-- Types a run of zeros: nothing after a lone zero, and a single zero where no number stands
(rule a). -/
def appendZeros (b run : List Char) : List Char :=
  if trailingNumber b = ['0'] then b
  else if trailingNumber b = [] then
    if endsIn b ')' then b ++ ['×', '0'] else b ++ ['0']
  else b ++ run

/-- Types a decimal point, with a zero before it where no number stands. -/
def appendDot (b : List Char) : List Char :=
  if endsIn b ')' then b ++ ['×', '0', '.']
  else if (trailingNumber b).contains '.' then b
  else if wantsValue b then b ++ ['0', '.']
  else b ++ ['.']

/-- Types an operator (rules b, d and f). -/
def appendOperator (b : List Char) (op : Operator) : List Char :=
  if b = zero then b
  else if endsIn b '(' && op != .minus then b
  else if b.getLast?.any isOperatorGlyph then
    if op = .minus && (endsIn b '×' || endsIn b '÷') then b ++ ['-']
    else
      let base := dropOperators b
      if base.isEmpty || endsIn base '(' then b else base ++ [op.glyph]
  else b ++ [op.glyph]

/-- Types a percent sign or a closing parenthesis, which need something before them
(rules b and d). -/
def appendAfterValue (b : List Char) (c : Char) : List Char :=
  if b = zero || endsIn b '(' then b else b ++ [c]

/-- Types an opening parenthesis. A lone zero makes room for it. -/
def appendOpening (b : List Char) : List Char :=
  if trailingNumber b = ['0'] then b.dropLast ++ ['(']
  else if trailingNumber b ≠ [] || endsIn b '%' || endsIn b ')' then b ++ ['×', '(']
  else b ++ ['(']

/-- Types an earlier result. A lone zero makes room for it. -/
def appendAnswer (b text : List Char) : List Char :=
  if trailingNumber b = ['0'] then b.dropLast ++ text
  else if trailingNumber b ≠ [] || endsIn b '%' || endsIn b ')' then b ++ '×' :: text
  else b ++ text

/-- The buffer after a key press. -/
def append (b : List Char) : Key → List Char
  | .digits run => if run.all (· == '0') then appendZeros b run else appendDigits b run
  | .dot => appendDot b
  | .operator op => appendOperator b op
  | .percent => appendAfterValue b '%'
  | .opening => appendOpening b
  | .closing => appendAfterValue b ')'
  | .answer text => appendAnswer b text

/-- The buffer without its last character; what is then empty or a lone minus sign becomes zero. -/
def backspace (b : List Char) : List Char :=
  let next := b.dropLast
  if next = [] || next = ['-'] then zero else next

/-- Whether a text is a single number: digits with at most one point after the first of them, and
at most one minus sign in front. -/
def isPlainNumber (b : List Char) : Bool :=
  let digits := if b.head? = some '-' then b.tail else b
  let whole := digits.takeWhile (· != '.')
  let fraction := (digits.dropWhile (· != '.')).drop 1
  !whole.isEmpty && whole.all Char.isDigit && fraction.all Char.isDigit

/-- The buffer with the sign of its number flipped, if it is a single number other than `0`. -/
def toggleSign? (b : List Char) : Option (List Char) :=
  if b = zero || !isPlainNumber b then none
  else if b.head? = some '-' then some b.tail
  else some ('-' :: b)

/-- The buffer after the parenthesis key, which closes what can be closed and opens otherwise. -/
def parenthesis (b : List Char) : List Char :=
  if b = zero then ['(']
  else if b.count ')' < b.count '(' && !wantsValue b then b ++ [')']
  else if b.getLast?.any fun c ↦ isLiteralChar c || c == ')' || c == '%' then b ++ ['×', '(']
  else b ++ ['(']

end DeskCalculator.Buffer
