import DeskCalculator.Toml.Bare
import DeskCalculator.Toml.Quoted

/-!
# TOML documents

A document is read expression by expression: a key with its value, a header, or nothing, each on a
line of its own with an optional comment. Arrays may stretch over lines; tables written as values
may not. Values are nested and keys are dotted less than `maxNesting` deep.
-/

namespace DeskCalculator.Toml

/-- The nesting that is refused. -/
def maxNesting : Nat := 80

/-- What a scanner finds at the beginning of a text, and the rest. -/
abbrev Scan (α : Type) := List Char → Option (α × List Char)

/-- A text without the blanks at its beginning. -/
def skipBlanks (cs : List Char) : List Char :=
  cs.dropWhile isBlank

/-- Passes over a line end or the end of the text. -/
def skipLineEnd? : List Char → Option (List Char)
  | [] => some []
  | '\n' :: cs => some cs
  | '\r' :: '\n' :: cs => some cs
  | _ => none

/-- Whether a character can stand in a comment. -/
def isCommentChar (c : Char) : Bool :=
  !isControl c

/-- A text without the comment that it begins with. -/
def skipComment : List Char → List Char
  | '#' :: cs => cs.dropWhile isCommentChar
  | cs => cs

/-- Passes over what may follow an expression on its line. -/
def skipLineRest? (cs : List Char) : Option (List Char) :=
  skipLineEnd? (skipComment (skipBlanks cs))

/-- Passes over blanks, comments and line ends, at most `n` of them. -/
def skipGaps? : (n : Nat) → List Char → Option (List Char)
  | 0, cs => some cs
  | n + 1, cs =>
    match cs with
    | '#' :: _ =>
      match skipComment cs with
      | '\n' :: cs => skipGaps? n cs
      | '\r' :: '\n' :: cs => skipGaps? n cs
      | _ => none
    | '\n' :: cs => skipGaps? n cs
    | '\r' :: '\n' :: cs => skipGaps? n cs
    | c :: rest => if isBlank c then skipGaps? n rest else some (c :: rest)
    | [] => some []

/-- Whether a character can stand in a key without quotes. -/
def isKeyChar (c : Char) : Bool :=
  c.isAlphanum || c == '_' || c == '-'

/-- Reads one part of a key. -/
def readKeyPart? : Scan String
  | '"' :: cs => (readBasic false .no cs).map fun x ↦ (String.ofList x.1, x.2)
  | '\'' :: cs => (readLiteral false cs).map fun x ↦ (String.ofList x.1, x.2)
  | cs =>
    match cs.takeWhile isKeyChar with
    | [] => none
    | run => some (String.ofList run, cs.dropWhile isKeyChar)

/-- Reads a key of at most `n` parts with points between them. -/
def readKeyParts? : (n : Nat) → Scan (List String)
  | 0, _ => none
  | n + 1, cs => do
    let (part, cs) ← readKeyPart? (skipBlanks cs)
    match skipBlanks cs with
    | '.' :: cs =>
      let (parts, cs) ← readKeyParts? n cs
      return (part :: parts, cs)
    | cs => return ([part], cs)

/-- Reads a key, as the tables on the way and the last part. -/
def readKey? (cs : List Char) : Option (List String × String × List Char) := do
  let (parts, cs) ← readKeyParts? (maxNesting - 1) cs
  return (parts.dropLast, ← parts.getLast?, cs)

/-- Reads a key, an equals sign and a value. -/
def readMember? (value : Scan Toml) (cs : List Char) :
    Option (List String × String × Toml × List Char) := do
  let (path, key, cs) ← readKey? cs
  match cs with
  | '=' :: cs =>
    let (v, cs) ← value (skipBlanks cs)
    return (path, key, v, cs)
  | _ => none

/-- Reads the elements of an array up to its end, at most `n` of them. -/
def readElements? (value : Scan Toml) : (n : Nat) → Scan (List Toml)
  | 0, _ => none
  | n + 1, cs => do
    match ← skipGaps? cs.length cs with
    | ']' :: cs => return ([], cs)
    | cs =>
      let (v, cs) ← value cs
      match ← skipGaps? cs.length cs with
      | ']' :: cs => return ([v], cs)
      | ',' :: cs =>
        let (vs, cs) ← readElements? value n cs
        return (v :: vs, cs)
      | _ => none

/-- Reads the members of a table written as a value up to its end, at most `n` of them, after those
in `ms`. -/
def readMembers? (value : Scan Toml) : (n : Nat) → Members → Scan Members
  | 0, _, _ => none
  | n + 1, ms, cs => do
    let (path, key, v, cs) ← readMember? value cs
    let ms ← addDotted? key v path ms
    match skipBlanks cs with
    | '}' :: cs => return (ms, cs)
    | ',' :: cs => readMembers? value n ms cs
    | _ => none

/-- Reads a value; `nesting` more levels of values may be opened. -/
def readValue? : (nesting : Nat) → Scan Toml
  | _, [] => none
  | 0, c :: cs =>
    if c = '"' ∨ c = '\'' then
      (readString? (c :: cs)).map fun x ↦ (string (String.ofList x.1), x.2)
    else if c = '[' ∨ c = '{' then none
    else readBareValue? (c :: cs)
  | nesting + 1, c :: cs =>
    if c = '"' ∨ c = '\'' then
      (readString? (c :: cs)).map fun x ↦ (string (String.ofList x.1), x.2)
    else if c = '[' then
      (readElements? (readValue? nesting) (cs.length + 1) cs).map fun x ↦ (array x.1, x.2)
    else if c = '{' then
      match skipBlanks cs with
      | '}' :: cs => some (table .inline [], cs)
      | cs =>
        (readMembers? (readValue? nesting) (cs.length + 1) [] cs).map fun x ↦
          (table .inline x.1, x.2)
    else readBareValue? (c :: cs)

/-- A value at the top of a document. -/
def readTopValue? : Scan Toml :=
  readValue? (maxNesting - 1)

/-- What has been read of a document: its members, and the path of the last header. -/
structure Partial where
  members : Members := []
  path : List String := []

/-- Reads a header after its opening brackets. -/
def readHeader? (d : Partial) (isRepeated : Bool) (cs : List Char) :
    Option (Partial × List Char) := do
  let (path, key, cs) ← readKey? cs
  let cs ← match isRepeated, cs with
    | true, ']' :: ']' :: cs => some cs
    | false, ']' :: cs => some cs
    | _, _ => none
  let cs ← skipLineRest? cs
  let members ← changeAt? (if isRepeated then openRepeated? key else openTable? key) path d.members
  return (⟨members, path ++ [key]⟩, cs)

/-- Reads one expression. -/
def readExpression? (d : Partial) (cs : List Char) : Option (Partial × List Char) :=
  match cs with
  | '[' :: '[' :: cs => readHeader? d true cs
  | '[' :: cs => readHeader? d false cs
  | '#' :: _ | '\n' :: _ | '\r' :: _ => (skipLineRest? cs).map (d, ·)
  | cs => do
    let (path, key, v, cs) ← readMember? readTopValue? cs
    let cs ← skipLineRest? cs
    let members ← changeAt? (addDotted? key v path) d.path d.members
    return ({ d with members }, cs)

/-- Reads at most `n` expressions up to the end of the text. -/
def readExpressions? : (n : Nat) → Partial → List Char → Option Members
  | 0, _, _ => none
  | n + 1, d, cs =>
    match skipBlanks cs with
    | [] => some d.members
    | cs => do
      let (d, cs) ← readExpression? d cs
      readExpressions? n d cs

/-- The top table of a document. A byte order mark may stand before it. -/
def readDocument? (cs : List Char) : Option Members :=
  let cs := if cs.head? = some '\uFEFF' then cs.tail else cs
  readExpressions? (cs.length + 1) {} cs

end DeskCalculator.Toml
