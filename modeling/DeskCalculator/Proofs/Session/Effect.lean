import DeskCalculator.Proofs.Session.Steps

/-!
# What an operation keeps and writes

A session keeps its recorded calculations, the bound, the tax settings and the button layout over a
restart. An operation changes at most one of these, the bound with the items past it, and writes
what it changes. `Session.effect_perform` says so for all operations, so that what is proved of the
store looks at no operation by itself.
-/

namespace DeskCalculator

open History (Clock Item Ledger)

/-- What a session keeps over a restart. -/
structure Kept where
  items : List History.Item
  bound : Nat
  tax : Tax.Settings
  layout : String

/-- What a session keeps over a restart. -/
def Session.kept (s : Session) : Kept :=
  ⟨s.ledger.items, s.ledger.bound, s.tax, s.buttonLayout⟩

/-- No note changes where no item has the id. -/
theorem History.Ledger.noteItem_eq {id : Int} {note : String} {items : List Item}
    (h : items.find? (fun i ↦ i.id == id) = none) : noteItem id note items = items := by
  induction items with
  | nil => rfl
  | cons k items ih =>
    rw [List.find?_cons] at h
    split at h
    · cases h
    · next hk => rw [noteItem, if_neg (by simp [hk]), ih h]

namespace Session

/-- An item that was recorded, but for its note, or one that records a result. -/
def Origin (s : Session) (now : Clock) (i : Item) : Prop :=
  (∃ j ∈ s.ledger.items, i = { j with notes := i.notes }) ∨ ∃ value, i = s.newItem value now

/-- What an operation at a moment does to what a session keeps, and what it writes. -/
inductive Effect (s : Session) (now : Clock) (op : Operation) (r : Reply) : Prop where
  | nothing (kept : r.session.kept = s.kept) (writes : r.writes = [])
  /-- The recorded calculations change. -/
  | items (items : List Item) (origin : ∀ i ∈ items, s.Origin now i)
      (kept : r.session.kept = { s.kept with items })
      (writes : r.writes = [Store.write Store.historyKey (Store.itemsJson items)])
  /-- The bound changes, and items past it fall off. -/
  | evicts (n : Nat) (hop : op = .setBound n)
      (evicted : Ledger.clampBound n < s.ledger.items.length)
      (kept : r.session.kept = { s.kept with
        items := s.ledger.items.take (Ledger.clampBound n), bound := Ledger.clampBound n })
      (writes : r.writes = [Store.write Store.boundKey (Store.sizeJson (Ledger.clampBound n)),
        Store.write Store.historyKey
          (Store.itemsJson (s.ledger.items.take (Ledger.clampBound n)))])
  /-- The bound changes, and there are no items past it. -/
  | bound (n : Nat) (hop : op = .setBound n)
      (room : s.ledger.items.length ≤ Ledger.clampBound n)
      (kept : r.session.kept = { s.kept with bound := Ledger.clampBound n })
      (writes : r.writes = [Store.write Store.boundKey (Store.sizeJson (Ledger.clampBound n))])
  | tax (settings : Tax.Settings) (hop : op = .setTax settings)
      (kept : r.session.kept = { s.kept with tax := settings })
      (writes : r.writes = [Store.write Store.taxKey settings.toJson])
  | layout (layout : String) (kept : r.session.kept = { s.kept with layout })
      (writes : r.writes = [Store.write Store.layoutKey (.string layout)])

variable (s : Session) (now : Clock)

/-- Items that were recorded. -/
theorem origin_of_mem {i : Item} (h : i ∈ s.ledger.items) : s.Origin now i :=
  .inl ⟨i, h, rfl⟩

private theorem effect_calculate : s.Effect now .calculate (s.calculate now) := by
  by_cases hidle : s.Idle
  · rw [calculate_of_idle hidle]
    exact .nothing rfl rfl
  · cases hvalue : Expression.compute s.buffer with
    | ok value =>
      rw [calculate_of_value hidle hvalue]
      refine .items (s.finish value now).ledger.items (fun i hi ↦ ?_) rfl rfl
      rcases List.mem_cons.mp (List.mem_of_mem_take hi) with rfl | hi
      · exact .inr ⟨value, rfl⟩
      · exact s.origin_of_mem now hi
    | error e =>
      rw [calculate_of_error hidle hvalue]
      exact .nothing rfl rfl

/-- A changed ledger is written, and one that is not written has not changed. -/
theorem effect_withLedger {op : Operation} {change : Ledger × Bool}
    (hbound : change.1.bound = s.ledger.bound) (horigin : ∀ i ∈ change.1.items, s.Origin now i)
    (hsame : change.2 = false → change.1.items = s.ledger.items) :
    s.Effect now op (s.withLedger change) := by
  have hkept : ({ s with ledger := change.1 } : Session).kept =
      { s.kept with items := change.1.items } := by
    rw [kept, kept, hbound]
  unfold withLedger
  dsimp only
  split
  · exact .items change.1.items horigin hkept rfl
  · next hunchanged =>
    refine .nothing ?_ rfl
    rw [hkept, hsame (by simpa using hunchanged)]
    rfl

private theorem effect_clearHistory : s.Effect now .clearHistory s.clearHistory := by
  unfold clearHistory
  split
  · exact .nothing rfl rfl
  · exact .items [] (fun i hi ↦ by cases hi) rfl rfl

theorem effect_setBound (n : Nat) : s.Effect now (.setBound n) (s.setBound n) := by
  have hevicted : (s.ledger.setBound n).2 = s.ledger.items.length - Ledger.clampBound n := rfl
  unfold setBound
  dsimp only
  by_cases hlt : Ledger.clampBound n < s.ledger.items.length
  · rw [if_pos (by omega)]
    exact .evicts n rfl hlt rfl rfl
  · have hroom : s.ledger.items.length ≤ Ledger.clampBound n := Nat.le_of_not_lt hlt
    rw [if_neg (by omega)]
    refine .bound n rfl hroom ?_ rfl
    have hitems : (s.ledger.setBound n).1.items = s.ledger.items := by
      rw [Ledger.items_setBound]
      exact List.take_of_length_le hroom
    rw [kept, hitems]
    rfl

/-- Typing a key, and taking over a repair, leaves what is kept as it is. -/
theorem kept_type (text : List Char) : (s.type text).kept = s.kept := by
  unfold type
  split
  · rfl
  · rfl

private theorem kept_typeAnswer : s.typeAnswer.kept = s.kept := by
  unfold typeAnswer
  split
  · rfl
  · rfl

private theorem kept_acceptFix : s.acceptFix.kept = s.kept := by
  unfold acceptFix
  split
  · rfl
  · rfl

private theorem effect_load (id : Int) : s.Effect now (.load id) (s.load id) := by
  unfold load
  split
  · exact .nothing rfl rfl
  · exact .nothing rfl rfl

/-- Every operation writes what it changes of what is kept, and nothing else. -/
theorem effect_perform (op : Operation) : s.Effect now op (s.perform now op) := by
  cases op with
  | type text => exact .nothing (s.kept_type text) rfl
  | press key => exact .nothing rfl rfl
  | backspace => exact .nothing rfl rfl
  | toggleSign => exact .nothing rfl rfl
  | parenthesis => exact .nothing rfl rfl
  | typeAnswer => exact .nothing s.kept_typeAnswer rfl
  | calculate => exact s.effect_calculate now
  | acceptFix => exact .nothing s.kept_acceptFix rfl
  | clearAll => exact .nothing rfl rfl
  | enter text => exact .nothing rfl rfl
  | load id => exact s.effect_load now id
  | delete id =>
    apply s.effect_withLedger now rfl
    · intro i hi
      exact s.origin_of_mem now (List.mem_filter.mp hi).1
    · intro hsame
      apply List.filter_sublist.eq_of_length
      simpa [Ledger.remove, Ledger.length] using hsame
  | note id text =>
    apply s.effect_withLedger now rfl
    · exact fun i hi ↦ .inl (Ledger.exists_of_mem_noteItem hi)
    · intro hsame
      apply Ledger.noteItem_eq
      exact Option.isNone_iff_eq_none.mp (Option.isSome_eq_false_iff.mp hsame)
  | clearHistory => exact s.effect_clearHistory now
  | setTax settings => exact .tax settings rfl rfl rfl
  | setBound n => exact s.effect_setBound now n
  | setLayout layout => exact .layout layout rfl rfl

end Session

end DeskCalculator
