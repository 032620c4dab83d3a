import DeskCalculator.Session.Calculator

/-!
# A host that is a value

A world is a host whose store is given and whose writes succeed as a pattern says. It notes what it
is asked to store, and all that is shown to the user. What an action makes of a calculator in a
world is found step by step with the lemmas on `World.run`.
-/

namespace DeskCalculator

/-- What the user is shown. -/
inductive Shown where
  | notice (message : String)
  | text (printed : String)
  deriving DecidableEq

/-- A store, which of its writes succeed, what is still to be read from the user, and what has been
asked of the store and shown so far. -/
structure World (σ : Type) where
  store : σ
  /-- Tells of each write, counted from zero, whether it works. -/
  succeeds : Nat → Bool
  /-- The lines to come, each with what the clock shows when it is answered. A line that is not
  UTF-8 has no text. -/
  lines : List (History.Clock × Option (List Char)) := []
  /-- All writes that were asked for, also those that failed, in order. -/
  writes : List Store.Write := []
  shown : List Shown := []

namespace World

variable {σ : Type}

/-- Shows something to the user. -/
def tell (w : World σ) (s : Shown) : World σ :=
  { w with shown := w.shown ++ [s] }

/-- What an action makes of a calculator in a world. -/
def run {α : Type} (w : World σ) (act : Action (StateM (World σ)) α) (c : Calculator) :
    (α × Calculator) × World σ :=
  act c w

section

variable {α β : Type} (w : World σ) (c : Calculator)

@[simp] theorem run_pure (a : α) : w.run (pure a) c = ((a, c), w) :=
  rfl

@[simp] theorem run_bind (act : Action (StateM (World σ)) α)
    (next : α → Action (StateM (World σ)) β) :
    w.run (act >>= next) c = (w.run act c).2.run (next (w.run act c).1.1) (w.run act c).1.2 :=
  rfl

@[simp] theorem run_get : w.run get c = ((c, c), w) :=
  rfl

@[simp] theorem run_modify (f : Calculator → Calculator) :
    w.run (modify f) c = (((), f c), w) :=
  rfl

end

variable [Store.Backing σ]

/-- Stores a value if this write succeeds. -/
def set (w : World σ) (write : Store.Write) : Except Store.StoreError Unit × World σ :=
  let (store, result) := Store.Backing.set w.store write (w.succeeds w.writes.length)
  (result, { w with store, writes := w.writes ++ [write] })

instance : Host (StateM (World σ)) where
  get key := modifyGet fun w ↦ (Store.get? (Store.Backing.entries w.store) key, w)
  set write := modifyGet fun w ↦ w.set write
  notify message := modify fun w ↦ w.tell (.notice message)

@[simp] theorem run_notify (w : World σ) (c : Calculator) (message : String) :
    w.run (Host.notify message) c = (((), c), w.tell (.notice message)) :=
  rfl

/-- Storing a value changes only the world, whether it works or not. -/
@[simp] theorem run_persist (w : World σ) (c : Calculator) (write : Store.Write) :
    w.run (Calculator.persist write) c = (((), c), (w.set write).2) := by
  have hset : w.run (Host.set write) c = (((w.set write).1, c), (w.set write).2) := rfl
  rw [Calculator.persist, run_bind, hset]
  cases (w.set write).1 <;> rfl

/-- The calculator that goes on from what is stored, and the world after it has been restored. -/
def restore (w : World σ) (defaults : Defaults) : Calculator × World σ :=
  (Calculator.restore defaults : StateM (World σ) Calculator) w

end World

end DeskCalculator
