import DeskCalculator.Number.Decimal

/-!
# Quoted strings in TOML

A string stands between double quotes, with escapes, or between single quotes, without; three
quotes instead of one let it hold line ends. A writer takes the first of the four forms that needs
no escape, in the order of `Quoting.choose`.
-/

namespace DeskCalculator.Toml

/-- The ways to quote a string. -/
inductive Quoting where
  | basic
  | literal
  | multiBasic
  | multiLiteral
  deriving Repr, DecidableEq

/-- Whether a character is a space or a tab. -/
def isBlank (c : Char) : Bool :=
  c == ' ' || c == '\t'

/-- Whether a character is a control character that no text holds unescaped. A tab is allowed, and
line ends are handled apart. -/
def isControl (c : Char) : Bool :=
  (c.toNat < 0x20 && c != '\t') || c.toNat == 0x7F

/-- The longest run of a character in a text, `run` of them standing before it. -/
def longestRun (c : Char) (run : Nat) : List Char → Nat
  | [] => run
  | d :: ds => if d = c then longestRun c (run + 1) ds else max run (longestRun c 0 ds)

/-- The four capital hexadecimal digits of a small number. -/
def fourHexDigits (n : Nat) : List Char :=
  let digit (k : Nat) : Char := (Nat.digitChar (n / 16 ^ k % 16)).toUpper
  [digit 3, digit 2, digit 1, digit 0]

/-- How a character other than a double quote stands between double quotes. -/
def escapeChar (multi : Bool) (c : Char) : List Char :=
  if c = '\x08' then ['\\', 'b']
  else if c = '\t' then ['\\', 't']
  else if c = '\n' then if multi then ['\n'] else ['\\', 'n']
  else if c = '\x0c' then ['\\', 'f']
  else if c = '\r' then ['\\', 'r']
  else if c = '\\' then ['\\', '\\']
  else if isControl c then '\\' :: 'u' :: fourHexDigits c.toNat
  else [c]

/-- A text between double quotes. Between three of them two double quotes in a row stay as they are;
`run` of them stand before the text. -/
def escape (multi : Bool) (run : Nat) : List Char → List Char
  | [] => []
  | c :: cs =>
    if c = '"' then
      if run < (if multi then 2 else 0) then '"' :: escape multi (run + 1) cs
      else '\\' :: '"' :: escape multi 0 cs
    else escapeChar multi c ++ escape multi 0 cs

/-- The form in which a text is written. -/
def Quoting.choose (cs : List Char) : Quoting :=
  let hasNewline := cs.contains '\n'
  let hasBackslash := cs.contains '\\'
  let isPlain := !cs.any fun c ↦ isControl c && c != '\n'
  if isPlain && !hasBackslash && !cs.contains '"' && !hasNewline then basic
  else if isPlain && !cs.contains '\'' && !hasNewline then literal
  else if isPlain && !hasBackslash && longestRun '"' 0 cs ≤ 2 then multiBasic
  else if isPlain && longestRun '\'' 0 cs ≤ 2 then multiLiteral
  else if hasNewline then multiBasic
  else basic

/-- The line end that a text with line ends has after its three quotes. -/
def openingNewline (cs : List Char) : List Char :=
  if cs.contains '\n' then ['\n'] else []

/-- A text in a given form. -/
def quoteAs (cs : List Char) : Quoting → List Char
  | .basic => '"' :: escape false 0 cs ++ ['"']
  | .literal => '\'' :: cs ++ ['\'']
  | .multiBasic =>
    ['"', '"', '"'] ++ openingNewline cs ++ escape true 0 cs ++ ['"', '"', '"']
  | .multiLiteral => ['\'', '\'', '\''] ++ openingNewline cs ++ cs ++ ['\'', '\'', '\'']

/-- A text in the form that is chosen for it. -/
def quote (cs : List Char) : List Char :=
  quoteAs cs (.choose cs)

/-- The character that some hexadecimal digits name. -/
def hexChar? (digits : List Char) : Option Char := do
  let value (c : Char) : Option Nat :=
    if '0' ≤ c ∧ c ≤ '9' then some (c.toNat - '0'.toNat)
    else if 'a' ≤ c ∧ c ≤ 'f' then some (c.toNat - 'a'.toNat + 10)
    else if 'A' ≤ c ∧ c ≤ 'F' then some (c.toNat - 'A'.toNat + 10)
    else none
  let n ← digits.foldlM (fun n c ↦ (value c).map (16 * n + ·)) 0
  if n.isValidChar then some (Char.ofNat n) else none

/-- The character that a letter after a backslash stands for. -/
def escaped? : Char → Option Char
  | 'b' => some '\x08'
  | 'f' => some '\x0c'
  | 'n' => some '\n'
  | 'r' => some '\r'
  | 't' => some '\t'
  | '\\' => some '\\'
  | '"' => some '"'
  | _ => none

/-- Whether the end of a line is being passed over after a backslash. -/
inductive Folding where
  | no
  /-- The line end is still to come. -/
  | beforeNewline
  /-- The line end has come, and blanks and line ends after it are passed over too. -/
  | afterNewline
  deriving DecidableEq

/-- Three quotes end a string, and up to two more belong to it. -/
def closeMulti (q : Char) : List Char → List Char × List Char
  | a :: b :: rest =>
    if a = q then if b = q then ([q, q], rest) else ([q], b :: rest) else ([], a :: b :: rest)
  | [a] => if a = q then ([q], []) else ([], [a])
  | [] => ([], [])

/-- Puts a character in front of what has been read. -/
def consRead (c : Char) (r : Option (List Char × List Char)) : Option (List Char × List Char) :=
  r.map fun x ↦ (c :: x.1, x.2)

/-- Reads a string after its opening double quotes, up to and with the closing ones. -/
def readBasic (multi : Bool) : Folding → List Char → Option (List Char × List Char)
  | _, [] => none
  | .beforeNewline, c :: cs =>
    if isBlank c then readBasic multi .beforeNewline cs
    else if c = '\n' then readBasic multi .afterNewline cs
    else if c = '\r' then
      match cs with
      | '\n' :: cs => readBasic multi .afterNewline cs
      | _ => none
    else none
  | folding, c :: cs =>
    if folding = .afterNewline ∧ (isBlank c ∨ c = '\n') then readBasic multi .afterNewline cs
    else if c = '"' then
      match cs with
      | '"' :: '"' :: rest => if multi then some (closeMulti '"' rest) else some ([], cs)
      | _ => if multi then consRead '"' (readBasic multi .no cs) else some ([], cs)
    else if c = '\\' then
      match cs with
      | [] => none
      | e :: cs =>
        if e = 'u' then
          match cs with
          | a :: b :: c :: d :: cs => do consRead (← hexChar? [a, b, c, d]) (readBasic multi .no cs)
          | _ => none
        else if e = 'U' then
          match cs with
          | a :: b :: c :: d :: f :: g :: h :: i :: cs => do
            consRead (← hexChar? [a, b, c, d, f, g, h, i]) (readBasic multi .no cs)
          | _ => none
        else if multi ∧ (isBlank e) then readBasic multi .beforeNewline cs
        else if multi ∧ e = '\n' then readBasic multi .afterNewline cs
        else if e = '\r' then
          match cs with
          | '\n' :: cs => if multi then readBasic multi .afterNewline cs else none
          | _ => none
        else do consRead (← escaped? e) (readBasic multi .no cs)
    else if multi ∧ c = '\n' then
      if folding = .afterNewline then readBasic multi .afterNewline cs
      else consRead '\n' (readBasic multi .no cs)
    else if c = '\r' then
      match cs with
      | '\n' :: cs =>
        if multi then
          if folding = .afterNewline then readBasic multi .afterNewline cs
          else consRead '\n' (readBasic multi .no cs)
        else none
      | _ => none
    else if isControl c then none
    else consRead c (readBasic multi .no cs)

/-- Reads a string after its opening single quotes, up to and with the closing ones. -/
def readLiteral (multi : Bool) : List Char → Option (List Char × List Char)
  | [] => none
  | c :: cs =>
    if c = '\'' then
      match cs with
      | '\'' :: '\'' :: rest => if multi then some (closeMulti '\'' rest) else some ([], cs)
      | _ => if multi then consRead '\'' (readLiteral multi cs) else some ([], cs)
    else if multi ∧ c = '\n' then consRead '\n' (readLiteral multi cs)
    else if c = '\r' then
      match cs with
      | '\n' :: cs => if multi then consRead '\n' (readLiteral multi cs) else none
      | _ => none
    else if isControl c then none
    else consRead c (readLiteral multi cs)

/-- A text without the line end that it begins with. -/
def skipNewline : List Char → List Char
  | '\n' :: cs => cs
  | '\r' :: '\n' :: cs => cs
  | cs => cs

/-- Reads a string in any of the four forms. -/
def readString? : List Char → Option (List Char × List Char)
  | '"' :: '"' :: '"' :: cs => readBasic true .no (skipNewline cs)
  | '"' :: cs => readBasic false .no cs
  | '\'' :: '\'' :: '\'' :: cs => readLiteral true (skipNewline cs)
  | '\'' :: cs => readLiteral false cs
  | _ => none

end DeskCalculator.Toml
