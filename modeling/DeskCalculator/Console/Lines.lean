/-!
# Lines of input

Input is cut after every line feed. A line loses its line feed and a carriage return before it.
What follows the last line feed is a line too unless it is empty. A line that is not UTF-8 has no
text.
-/

namespace DeskCalculator.Console

/-- The bytes up to the first line feed, whether there is one, and the bytes after it. -/
def splitLine : List UInt8 → List UInt8 × Bool × List UInt8
  | [] => ([], false, [])
  | b :: bs =>
    if b = 10 then ([], true, bs)
    else
      let (line, ended, rest) := splitLine bs
      (b :: line, ended, rest)

/-- The bytes of a line without the carriage return at its end. -/
def dropReturn (line : List UInt8) : List UInt8 :=
  if line.getLast? = some 13 then line.dropLast else line

/-- The text of a line with given bytes. -/
def lineText? (line : List UInt8) : Option (List Char) :=
  (String.fromUTF8? ⟨line.toArray⟩).map String.toList

/-- Cutting a line off leaves fewer bytes. -/
private theorem length_splitLine_lt (b : UInt8) (bs : List UInt8) :
    (splitLine (b :: bs)).2.2.length < (b :: bs).length := by
  have key (cs : List UInt8) : (splitLine cs).2.2.length ≤ cs.length := by
    induction cs with
    | nil => simp [splitLine]
    | cons c cs ih =>
      unfold splitLine
      split
      · simp
      · simpa using Nat.le_succ_of_le ih
  unfold splitLine
  split
  · simp
  · simpa using Nat.lt_succ_of_le (key bs)

/-- The lines of some bytes. -/
def lines : List UInt8 → List (Option (List Char))
  | [] => []
  | b :: bs =>
    let cut := splitLine (b :: bs)
    lineText? (if cut.2.1 then dropReturn cut.1 else cut.1) :: lines cut.2.2
termination_by bs => bs.length
decreasing_by exact length_splitLine_lt b bs

end DeskCalculator.Console
