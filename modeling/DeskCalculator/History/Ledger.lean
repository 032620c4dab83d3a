import DeskCalculator.History.Item

/-!
# The ledger

The recorded calculations, newest first. A ledger has a bound of at least one item and never holds
more than that: what is pushed past it falls off at the old end. Each operation has a lemma that
says what it makes of the items.

Specification: §3 and §4.5.
-/

namespace DeskCalculator.History

/-- Recorded calculations, newest first, and how many of them are kept at most. -/
@[ext] structure Ledger where
  items : List Item
  bound : Nat
  bound_pos : 0 < bound
  length_le : items.length ≤ bound
  deriving DecidableEq

namespace Ledger

/-- The bound that is used when `n` is asked for. -/
def clampBound (n : Nat) : Nat :=
  max n 1

/-- A bound is at least one. -/
theorem clampBound_pos (n : Nat) : 0 < clampBound n :=
  Nat.le_max_right n 1

/-- The ledger of the newest of some items. -/
def newest (items : List Item) (bound : Nat) (bound_pos : 0 < bound) : Ledger where
  items := items.take bound
  bound := bound
  bound_pos := bound_pos
  length_le := List.length_take_le bound items

/-- A ledger of the newest of some items. -/
def ofItems (items : List Item) (n : Nat) : Ledger :=
  newest items (clampBound n) (clampBound_pos n)

/-- How many items are recorded. -/
def length (l : Ledger) : Nat :=
  l.items.length

/-- The newest item with an id. -/
def get? (l : Ledger) (id : Int) : Option Item :=
  l.items.find? fun i ↦ i.id == id

/-- The greatest id that is recorded. -/
def maxId? (l : Ledger) : Option Int :=
  (l.items.map Item.id).max?

/-- The id of an item that is made at `now`: the reading, or the next number above all recorded
ids. Ids are integers of 64 bits with a sign, and after the greatest of them comes the least. -/
def nextId (l : Ledger) (now : Int) : Int :=
  match l.maxId? with
  | some id => if now ≤ id then (id + 1).bmod (2 ^ 64) else now
  | none => now

/-- Records the newest item. The number says how many items fell off. -/
def push (l : Ledger) (item : Item) : Ledger × Nat :=
  (newest (item :: l.items) l.bound l.bound_pos, l.length + 1 - l.bound)

/-- Changes the bound. The number says how many items fell off. -/
def setBound (l : Ledger) (n : Nat) : Ledger × Nat :=
  (ofItems l.items n, l.length - clampBound n)

/-- Removes the items with an id. The flag says whether there were any. -/
def remove (l : Ledger) (id : Int) : Ledger × Bool :=
  let kept := l.items.filter fun i ↦ i.id != id
  ({ l with
      items := kept
      length_le := Nat.le_trans (List.length_filter_le _ _) l.length_le },
    kept.length != l.length)

/-- Changes the note of the newest item with an id. -/
def noteItem (id : Int) (note : String) : List Item → List Item
  | [] => []
  | i :: is => if i.id == id then { i with notes := note } :: is else i :: noteItem id note is

/-- A changed note adds no item and drops none. -/
@[simp] theorem length_noteItem (id : Int) (note : String) (items : List Item) :
    (noteItem id note items).length = items.length := by
  induction items with
  | nil => rfl
  | cons i is ih =>
    rw [noteItem]
    split
    · rfl
    · rw [List.length_cons, List.length_cons, ih]

/-- A changed item differs in nothing but its note. -/
theorem exists_of_mem_noteItem {id : Int} {note : String} {items : List Item} {i : Item}
    (h : i ∈ noteItem id note items) : ∃ j ∈ items, i = { j with notes := i.notes } := by
  induction items with
  | nil => cases h
  | cons k items ih =>
    rw [noteItem] at h
    split at h
    · rcases List.mem_cons.mp h with rfl | h
      · exact ⟨k, by simp, rfl⟩
      · exact ⟨i, by simp [h], rfl⟩
    · rcases List.mem_cons.mp h with rfl | h
      · exact ⟨i, by simp, rfl⟩
      · obtain ⟨j, hj, heq⟩ := ih h
        exact ⟨j, by simp [hj], heq⟩

/-- Changes the note of the newest item with an id. The flag says whether there was one. -/
def setNote (l : Ledger) (id : Int) (note : String) : Ledger × Bool :=
  ({ l with
      items := noteItem id note l.items
      length_le := by rw [length_noteItem]; exact l.length_le },
    (l.get? id).isSome)

/-- Removes all items. -/
def clear (l : Ledger) : Ledger :=
  { l with items := [], length_le := Nat.zero_le _ }

/-- How many items have a date. -/
def countOn (l : Ledger) (date : String) : Nat :=
  l.items.countP fun i ↦ i.date == date

/-- A ledger of some items holds the newest of them. -/
@[simp] theorem items_ofItems (items : List Item) (n : Nat) :
    (ofItems items n).items = items.take (clampBound n) :=
  rfl

/-- A pushed item stands in front, and what lies past the bound falls off. -/
@[simp] theorem items_push (l : Ledger) (item : Item) :
    (l.push item).1.items = (item :: l.items).take l.bound :=
  rfl

/-- What lies past a new bound falls off. -/
@[simp] theorem items_setBound (l : Ledger) (n : Nat) :
    (l.setBound n).1.items = l.items.take (clampBound n) :=
  rfl

/-- The other items stay in their order. -/
@[simp] theorem items_remove (l : Ledger) (id : Int) :
    (l.remove id).1.items = l.items.filter fun i ↦ i.id != id :=
  rfl

/-- A note is changed in its place. -/
@[simp] theorem items_setNote (l : Ledger) (id : Int) (note : String) :
    (l.setNote id note).1.items = noteItem id note l.items :=
  rfl

/-- A cleared ledger has no items. -/
@[simp] theorem items_clear (l : Ledger) : l.clear.items = [] :=
  rfl

/-- The bound of a ledger is at least one. -/
@[simp] theorem bound_ofItems (items : List Item) (n : Nat) :
    (ofItems items n).bound = clampBound n :=
  rfl

end Ledger

end DeskCalculator.History
