import DeskCalculator.Expression.Piece

/-!
# Keys

A key of the keypad is known by the text on it. The operator keys have the glyphs `+ - × ÷`; a few
other texts are taken for the same keys. The answer key stands for the text of an earlier result.

Specification: §4.5.
-/

namespace DeskCalculator.Buffer

/-- The operators of the keypad. -/
inductive Operator where
  | plus
  | minus
  | times
  | divide
  deriving Repr, DecidableEq

namespace Operator

/-- The character that an operator key types. -/
def glyph : Operator → Char
  | plus => '+'
  | minus => '-'
  | times => '×'
  | divide => '÷'

end Operator

/-- Whether a character is the glyph of an operator key. -/
def isOperatorGlyph (c : Char) : Bool :=
  c == '+' || c == '-' || c == '×' || c == '÷'

/-- The glyph of every operator is known as one. -/
theorem isOperatorGlyph_glyph (op : Operator) : isOperatorGlyph op.glyph := by
  cases op <;> decide

/-- A character that is the glyph of an operator key is one of four. -/
theorem isOperatorGlyph_cases {c : Char} (h : isOperatorGlyph c) :
    c = '+' ∨ c = '-' ∨ c = '×' ∨ c = '÷' := by
  simpa only [isOperatorGlyph, Bool.or_eq_true, beq_iff_eq, or_assoc] using h

/-- One key press. -/
inductive Key where
  /-- A run of digits such as `7`, `0` or `000`. -/
  | digits (run : List Char)
  | dot
  | operator (op : Operator)
  | percent
  | opening
  | closing
  /-- The text of an earlier result. -/
  | answer (text : List Char)
  deriving Repr, DecidableEq

namespace Key

/-- The key with a given text on it, if there is one. -/
def parse? : List Char → Option Key
  | ['.'] => some .dot
  | ['+'] => some (.operator .plus)
  | ['-'] => some (.operator .minus)
  | ['×'] | ['*'] | ['x'] | ['X'] => some (.operator .times)
  | ['÷'] | ['/'] => some (.operator .divide)
  | ['%'] => some .percent
  | ['('] => some .opening
  | [')'] => some .closing
  | [] => none
  | run => if run.all Char.isDigit then some (.digits run) else none

/-- The characters that a key types by itself. -/
def text : Key → List Char
  | digits run => run
  | dot => ['.']
  | operator op => [op.glyph]
  | percent => ['%']
  | opening => ['(']
  | closing => [')']
  | answer text => text

/-- The buffer after a key that starts a new expression. A key that needs something before it, and
a run of zeros, leave a single zero. -/
def fresh : Key → List Char
  | digits run => if run.all (· == '0') then ['0'] else run
  | dot => ['0', '.']
  | opening => ['(']
  | answer text => text
  | operator _ | percent | closing => ['0']

end Key

end DeskCalculator.Buffer
