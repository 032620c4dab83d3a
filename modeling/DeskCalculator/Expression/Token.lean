import DeskCalculator.Expression.Error
import DeskCalculator.Expression.Piece
import DeskCalculator.Number.Decimal

/-!
# Tokens of an expression

A text is cut into pieces and each piece becomes a token, except that spaces and tabs vanish. The
leftmost piece that is no token decides the error.

Specification: §4.2.
-/

namespace DeskCalculator.Expression

/-- The operators that join terms. -/
inductive AddOp where
  | plus
  | minus
  deriving Repr, DecidableEq

/-- The operators that join the factors of a term. -/
inductive MulOp where
  | times
  | divide
  deriving Repr, DecidableEq

/-- What a token is. -/
inductive Lexeme where
  | number (value : Float)
  | add (op : AddOp)
  | mul (op : MulOp)
  | opening
  | closing
  deriving DecidableEq

/-- A token and the place of its first character. -/
structure Token where
  lexeme : Lexeme
  pos : Nat
  deriving DecidableEq

/-- The character that an error report shows for a token; a number is shown as `0`. -/
def Lexeme.glyph : Lexeme → Char
  | number _ => '0'
  | add .plus => '+'
  | add .minus => '-'
  | mul .times => '*'
  | mul .divide => '/'
  | opening => '('
  | closing => ')'

/-- Whether a run of digits and points is a number: it has a digit and at most one point. -/
def isNumeral (run : List Char) : Bool :=
  run.any Char.isDigit && run.count '.' ≤ 1

/-- The number that a run of digits and points denotes. -/
def numeralValue (run : List Char) : Float :=
  let fraction := (run.dropWhile (· != '.')).drop 1
  Number.ofDecimal false (Number.valueOf (run.filter (· != '.'))) (-(fraction.length : Int))

/-- The number that a run of digits and points denotes, if it is one. -/
def readNumeral? (run : List Char) : Option Float :=
  if isNumeral run then some (numeralValue run) else none

/-- The token that a character makes by itself. -/
def symbol? : Char → Option Lexeme
  | '+' => some (.add .plus)
  | '-' => some (.add .minus)
  | '*' => some (.mul .times)
  | '/' => some (.mul .divide)
  | '(' => some .opening
  | ')' => some .closing
  | _ => none

/-- Whether a character separates tokens: a space or a tab. -/
def isGap (c : Char) : Bool :=
  c == ' ' || c == '\t'

/-- The tokens of pieces that begin at `pos`. -/
def tokensFrom (pos : Nat) : List Piece → Except EvalError (List Token)
  | [] => .ok []
  | .literal run :: pieces =>
    match readNumeral? run with
    | some value => (⟨.number value, pos⟩ :: ·) <$> tokensFrom (pos + run.length) pieces
    | none => .error (.invalidNumber run pos)
  | .mark c :: pieces =>
    if isGap c then tokensFrom (pos + 1) pieces
    else
      match symbol? c with
      | some lexeme => (⟨lexeme, pos⟩ :: ·) <$> tokensFrom (pos + 1) pieces
      | none => .error (.unknownSymbol c pos)

/-- The tokens of a text. -/
def tokenize (cs : List Char) : Except EvalError (List Token) :=
  tokensFrom 0 (Piece.split cs)

end DeskCalculator.Expression
