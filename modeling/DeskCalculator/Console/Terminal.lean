import DeskCalculator.Console.Show
import DeskCalculator.Session.World

/-!
# Terminals

A terminal is a host that also prints texts and hands out lines. A world is one: it notes what is
printed among all that is shown, and its lines are given.
-/

namespace DeskCalculator

/-- What a console runs on. -/
class Terminal (m : Type → Type) extends Host m where
  /-- Prints a text. -/
  print : String → m Unit
  /-- The next line, if there is one, with what the clock shows when it is answered. A line that is
  not UTF-8 has no text. -/
  nextLine : m (Option (History.Clock × Option (List Char)))

instance {m : Type → Type} [Monad m] [Terminal m] : Terminal (Action m) where
  print text := StateT.lift (Terminal.print text)
  nextLine := StateT.lift Terminal.nextLine

/-- The text of what is shown; a notice is printed on a line of its own. -/
def Shown.printed : Shown → String
  | notice message => Console.line ["* ", message]
  | text printed => printed

namespace World

variable {σ : Type}

/-- All that has been printed. -/
def printed (w : World σ) : String :=
  String.join (w.shown.map Shown.printed)

/-- Prints a text. -/
def print (w : World σ) (text : String) : World σ :=
  w.tell (.text text)

/-- The world after a line has been read. -/
def afterLine (w : World σ) : World σ :=
  { w with lines := w.lines.tail }

variable [Store.Backing σ]

instance : Terminal (StateM (World σ)) where
  print text := modify fun w ↦ w.print text
  nextLine := modifyGet fun w ↦ (w.lines.head?, w.afterLine)

@[simp] theorem run_print (w : World σ) (c : Calculator) (text : String) :
    w.run (Terminal.print text) c = (((), c), w.print text) :=
  rfl

@[simp] theorem run_nextLine (w : World σ) (c : Calculator) :
    w.run Terminal.nextLine c = ((w.lines.head?, c), w.afterLine) :=
  rfl

end World

end DeskCalculator
