import DeskCalculator.Proofs.Session.Restart

/-!
# What comes back at a restart

A session that is restored leaves out what lies past the bound, but does not write the recorded
calculations back. So what was left out still stands in the store until they are written for the
first time, and a restart under a greater bound shows it again. After that a restart shows what the
session shows, but for tax rates that are not finite.
-/

namespace DeskCalculator

open History (Clock Item Ledger)
open Store (Keeps loadOr put)

/-- Whether the bound of an operation is an integer of 64 bits. -/
def Operation.hasSize : Operation → Bool
  | .setBound bound => bound < 2 ^ 64
  | _ => true

/-- Whether the recorded calculations are written by one of some operations. -/
def Session.writesHistory (s : Session) : List (Clock × Operation) → Bool
  | [] => false
  | step :: steps =>
    let reply := s.perform step.1 step.2
    reply.writes.any (·.1 == Store.historyKey) || reply.session.writesHistory steps

namespace Kept

/-- What is stored of the recorded calculations. Once they have been `written` it is all of them.
Before that it is the items `old`, of which the session has the first `n`. -/
structure Recorded (k : Kept) (entries : Store.Entries) (defaults : Defaults) (old : List Item)
    (n : Nat) (written : Bool) : Prop where
  ids : ∀ i ∈ k.items, i.HasId
  bound : Ledger.clampBound (loadOr entries Store.boundKey Json.asSize? defaults.maxHistory) =
    k.bound
  before : written = false → Store.recorded entries = old ∧ k.items = old.take n
  after : written = true → Store.recorded entries = k.items.map Item.stored

namespace Recorded

variable {k : Kept} {entries : Store.Entries} {defaults : Defaults} {old : List Item} {n : Nat}
  {written : Bool}

/-- A restored session has what its bound leaves of the stored items. -/
theorem restore (entries : Store.Entries) (defaults : Defaults) :
    let s := Session.restore entries defaults
    s.kept.Recorded entries defaults (Store.recorded entries) s.ledger.bound false where
  ids i hi := Store.hasId_of_mem_recorded (List.mem_of_mem_take hi)
  bound := rfl
  before _ := ⟨rfl, rfl⟩
  after h := by cases h

/-- Items that are written are read back. -/
theorem put_items (h : k.Recorded entries defaults old n written) {items : List Item}
    (hids : ∀ i ∈ items, i.HasId) :
    Recorded { k with items } (put entries (Store.write Store.historyKey (Store.itemsJson items)))
      defaults old n true where
  ids := hids
  bound := by
    rw [Store.loadOr_put_of_ne (by decide)]
    exact h.bound
  before h := by cases h
  after _ := Store.loadOr_put_self (Store.asList?_sorted_itemsJson_stored hids) []

/-- A bound is written. -/
theorem put_bound (h : k.Recorded entries defaults old n written) {bound : Nat} (hpos : 0 < bound)
    (hlt : bound < 2 ^ 64) :
    Recorded { k with bound } (put entries (Store.write Store.boundKey (Store.sizeJson bound)))
      defaults old n written where
  ids := h.ids
  bound := by
    rw [Store.loadOr_put_self (Store.asSize?_sorted_sizeJson hlt)]
    exact Nat.max_eq_left hpos
  before hwritten := by
    rw [Store.recorded, Store.loadOr_put_of_ne (by decide)]
    exact h.before hwritten
  after hwritten := by
    rw [Store.recorded, Store.loadOr_put_of_ne (by decide)]
    exact h.after hwritten

/-- What is written under another key does not matter. -/
theorem put_of_ne (h : k.Recorded entries defaults old n written) {k' : Kept}
    (hitems : k'.items = k.items) (hbound : k'.bound = k.bound) (key : String) (value : Json)
    (hhistory : Store.historyKey ≠ key) (hkey : Store.boundKey ≠ key) :
    k'.Recorded (put entries (Store.write key value)) defaults old n written where
  ids := by
    rw [hitems]
    exact h.ids
  bound := by
    rw [hbound, Store.loadOr_put_of_ne hkey]
    exact h.bound
  before hwritten := by
    rw [hitems, Store.recorded, Store.loadOr_put_of_ne hhistory]
    exact h.before hwritten
  after hwritten := by
    rw [hitems, Store.recorded, Store.loadOr_put_of_ne hhistory]
    exact h.after hwritten

/-- What a restart shows of what is stored. -/
private theorem items_restore (h : k.Recorded entries defaults old n written)
    (hlength : k.items.length ≤ k.bound) :
    (Session.restore entries defaults).ledger.items =
      if written then k.items.map Item.stored
      else k.items ++ (old.drop n).take (k.bound - n) := by
  have hrestored : (Session.restore entries defaults).ledger.items =
      (Store.recorded entries).take k.bound := by
    rw [← h.bound]
    rfl
  rw [hrestored]
  cases written with
  | true =>
    rw [h.after rfl, if_pos rfl]
    apply List.take_of_length_le
    rwa [List.length_map]
  | false =>
    obtain ⟨hrecorded, hitems⟩ := h.before rfl
    rw [hrecorded, hitems, if_neg (by simp)]
    by_cases hbound : n ≤ k.bound
    · rw [← List.take_add, Nat.add_sub_cancel' hbound]
    · -- A smaller bound dropped nothing, so nothing was left out in the first place.
      rw [hitems, List.length_take] at hlength
      rw [List.take_of_length_le (by omega), List.take_of_length_le (by omega),
        List.drop_of_length_le (by omega), List.take_nil, List.append_nil]

end Recorded

end Kept

/-- Every operation keeps what is stored and what the session has together. -/
private theorem Session.recorded_perform {s : Session} {entries : Store.Entries}
    {defaults : Defaults} {old : List Item} {n : Nat} {written : Bool}
    (h : s.kept.Recorded entries defaults old n written) {now : Clock} (hnow : now.isInRange)
    {op : Operation} (hop : op.hasSize) :
    (s.perform now op).session.kept.Recorded ((s.perform now op).writes.foldl put entries) defaults
      old n (written || (s.perform now op).writes.any (·.1 == Store.historyKey)) := by
  have hsize {m : Nat} (heq : op = .setBound m) : Ledger.clampBound m < 2 ^ 64 := by
    rw [heq] at hop
    exact Ledger.clampBound_lt (of_decide_eq_true hop)
  have hsame {key : String} {value : Json} (hkey : (key == Store.historyKey) = false)
      (hwrites : (s.perform now op).writes = [Store.write key value]) :
      (written || (s.perform now op).writes.any (·.1 == Store.historyKey)) = written := by
    simp [hwrites, Store.write, hkey]
  cases s.effect_perform now op with
  | nothing hkept hwrites =>
    rw [hkept, hwrites]
    simpa using h
  | items items horigin hkept hwrites =>
    have hwritten :
        (written || (s.perform now op).writes.any (·.1 == Store.historyKey)) = true := by
      simp [hwrites, Store.write]
    rw [hwritten, hkept, hwrites]
    exact h.put_items fun i hi ↦ (horigin i hi).hasId h.ids hnow
  | evicts m heq hevicted hkept hwrites =>
    have hwritten :
        (written || (s.perform now op).writes.any (·.1 == Store.historyKey)) = true := by
      simp [hwrites, Store.write]
    rw [hwritten, hkept, hwrites]
    have hbound := h.put_bound (Ledger.clampBound_pos m) (hsize heq)
    exact hbound.put_items fun i hi ↦ h.ids i (List.mem_of_mem_take hi)
  | bound m heq hroom hkept hwrites =>
    rw [hsame rfl hwrites, hkept, hwrites]
    exact h.put_bound (Ledger.clampBound_pos m) (hsize heq)
  | tax settings heq hkept hwrites =>
    rw [hsame rfl hwrites, hkept, hwrites]
    apply h.put_of_ne
    · rfl
    · rfl
    · decide
    · decide
  | layout layout hkept hwrites =>
    rw [hsame rfl hwrites, hkept, hwrites]
    apply h.put_of_ne
    · rfl
    · rfl
    · decide
    · decide

namespace Desk

variable {σ : Type} [Store.Backing σ] [Keeps σ]

/-- So does every run. -/
private theorem recorded_run {d : Desk σ} {defaults : Defaults} {old : List Item} {n : Nat}
    {written : Bool}
    (h : d.session.kept.Recorded (Store.Backing.entries d.store) defaults old n written)
    {steps : List (Clock × Operation)} (hnow : ∀ step ∈ steps, step.1.isInRange)
    (hop : ∀ step ∈ steps, step.2.hasSize) :
    (d.run steps).session.kept.Recorded (Store.Backing.entries (d.run steps).store) defaults old n
      (written || d.session.writesHistory steps) := by
  induction steps generalizing d written with
  | nil => rwa [Session.writesHistory, Bool.or_false]
  | cons step steps ih =>
    obtain ⟨hnow, hnows⟩ := List.forall_mem_cons.mp hnow
    obtain ⟨hop, hops⟩ := List.forall_mem_cons.mp hop
    have hstep := Session.recorded_perform h hnow hop
    rw [← entries_storeAll] at hstep
    rw [Session.writesHistory, ← Bool.or_assoc]
    exact ih hstep hnows hops

/-- Whatever is stored at the beginning: once a run has written the recorded calculations, a restart
shows those that the session has, without the tax rates that are not finite. Until then it also
shows those that the session left out when it was restored, as far as the bound leaves room for
them. -/
theorem items_restart (store : σ) (defaults : Defaults) {steps : List (Clock × Operation)}
    (hnow : ∀ step ∈ steps, step.1.isInRange) (hop : ∀ step ∈ steps, step.2.hasSize) :
    let start := Desk.restore store defaults
    let d := start.run steps
    let leftOut :=
      (Store.recorded (Store.Backing.entries store)).drop start.session.ledger.bound
    (Desk.restore d.store defaults).session.ledger.items =
      if start.session.writesHistory steps then d.session.ledger.items.map Item.stored
      else d.session.ledger.items ++
        leftOut.take (d.session.ledger.bound - start.session.ledger.bound) := by
  intro start d leftOut
  have hstart := Kept.Recorded.restore (Store.Backing.entries store) defaults
  have hrun := recorded_run (d := start) hstart hnow hop
  exact hrun.items_restore d.session.ledger.length_le

/-- What a store holds after two sums were recorded and the bound was set to one by hand. -/
def boundedByHand : Store.Memory :=
  ⟨[Store.write Store.historyKey (Store.itemsJson
      [⟨2, "2+2", "4", none, none, none, none, "2024-01-01", "00:00", ""⟩,
        ⟨1, "1+1", "2", none, none, none, none, "2024-01-01", "00:00", ""⟩]),
    Store.write Store.boundKey (Store.sizeJson 1)]⟩

/-- The bound leaves out one of two stored sums. A calculation stores the history without it, so
that raising the bound afterwards does not bring it back. -/
theorem items_restart_after_calculation :
    let steps : List (Clock × Operation) :=
      [(⟨5, 2024, 2, 29, 23, 59⟩, .type ['7']), (⟨5, 2024, 2, 29, 23, 59⟩, .type ['×']),
        (⟨6, 2024, 2, 29, 23, 59⟩, .type ['6']), (⟨7, 2024, 2, 29, 23, 59⟩, .calculate),
        (⟨8, 2024, 3, 1, 0, 0⟩, .setBound 10)]
    let d := (Desk.restore boundedByHand .standard).run steps
    ((∀ step ∈ steps, step.1.isInRange) ∧ ∀ step ∈ steps, step.2.hasSize) ∧
    d.session.ledger.items.map Item.expression = ["7×6"] ∧
    (Desk.restore d.store .standard).session.ledger.items =
      d.session.ledger.items.map Item.stored := by
  intro steps d
  have hnow : ∀ step ∈ steps, step.1.isInRange := by decide +kernel
  have hop : ∀ step ∈ steps, step.2.hasSize := by decide +kernel
  have hitems : d.session.ledger.items.map Item.expression = ["7×6"] := by decide +kernel
  have hwritten : (Desk.restore boundedByHand .standard).session.writesHistory steps := by
    decide +kernel
  have hrestart := items_restart boundedByHand .standard hnow hop
  exact ⟨⟨hnow, hop⟩, hitems, hrestart.trans (if_pos hwritten)⟩

/-- What the session left out comes back once the bound is raised. -/
theorem leftOut_comes_back :
    let start := Desk.restore boundedByHand .standard
    let d := start.run [(⟨5, 2024, 2, 29, 23, 59⟩, .setBound 2)]
    start.session.ledger.items.map Item.expression = ["2+2"] ∧
      d.session.ledger.items = start.session.ledger.items ∧
      ∃ i ∈ (Desk.restore d.store .standard).session.ledger.items, i ∉ d.session.ledger.items := by
  intro start d
  refine ⟨by decide +kernel, by decide +kernel, ?_⟩
  exact ⟨⟨1, "1+1", "2", none, none, none, none, "2024-01-01", "00:00", ""⟩, by decide +kernel,
    by decide +kernel⟩

end Desk

end DeskCalculator
