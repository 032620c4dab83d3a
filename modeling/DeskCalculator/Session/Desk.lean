import DeskCalculator.Session.Operation
import DeskCalculator.Store.Backing

/-!
# A session at its store

A desk is a session together with the place where its values are stored. An operation changes the
session and then stores what it asks for, one value after the other; a value that cannot be stored
is passed over.

Specification: §5 and §6.
-/

namespace DeskCalculator

/-- A session and its store. -/
structure Desk (σ : Type) where
  session : Session
  store : σ

namespace Desk

variable {σ : Type} [Store.Backing σ]

/-- Stores values in order. `succeeds` tells of each write, counted from zero, whether it works. -/
def storeAll (store : σ) (writes : List Store.Write) (succeeds : Nat → Bool) : σ :=
  match writes with
  | [] => store
  | w :: ws =>
    storeAll (Store.Backing.set store w (succeeds 0)).1 ws fun n ↦ succeeds (n + 1)

/-- Starts a session from what is stored. -/
def restore (store : σ) (defaults : Defaults) : Desk σ :=
  ⟨.restore (Store.Backing.entries store) defaults, store⟩

/-- Performs an operation and stores what it asks for. -/
def perform (d : Desk σ) (now : History.Clock) (succeeds : Nat → Bool) (op : Operation) :
    Desk σ × Reply :=
  let reply := d.session.perform now op
  (⟨reply.session, storeAll d.store reply.writes succeeds⟩, reply)

end Desk

end DeskCalculator
