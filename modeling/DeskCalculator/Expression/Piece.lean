/-!
# Pieces of an expression

A text falls into its maximal runs of digits and points, which are the places where numbers stand,
and its other characters one by one. Nothing is lost: the pieces put together are the text.
-/

namespace DeskCalculator.Expression

/-- Whether a character can stand in a number literal. -/
def isLiteralChar (c : Char) : Bool :=
  c.isDigit || c == '.'

/-- A maximal run of digits and points, or one character of another kind. -/
inductive Piece where
  | literal (run : List Char)
  | mark (c : Char)
  deriving Repr, DecidableEq

namespace Piece

/-- The characters of a piece. -/
def chars : Piece → List Char
  | literal run => run
  | mark c => [c]

/-- Puts a digit or point in front of a text that is already cut. -/
def consLiteral (c : Char) : List Piece → List Piece
  | literal run :: pieces => literal (c :: run) :: pieces
  | pieces => literal [c] :: pieces

/-- The pieces of a text, in order. -/
def split : List Char → List Piece
  | [] => []
  | c :: cs => if isLiteralChar c then consLiteral c (split cs) else mark c :: split cs

end Piece

/-- The number literals of a text: its maximal runs of digits and points, in order. -/
def literals (cs : List Char) : List (List Char) :=
  (Piece.split cs).filterMap fun
    | .literal run => some run
    | .mark _ => none

end DeskCalculator.Expression
