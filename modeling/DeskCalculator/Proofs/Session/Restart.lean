import DeskCalculator.Proofs.Session.Effect
import DeskCalculator.Proofs.Store.RoundTrip
import DeskCalculator.Session.Desk

/-!
# A restart finds what the session had

Every operation stores what it changes of the recorded calculations and the preferences. So if
writing always succeeds, a session that is restored from the store at any moment has the recorded
calculations, the bound, the tax settings and the button layout of the live one.
-/

namespace DeskCalculator

open History (Clock Ledger)
open Store (Keeps loadOr put)

/-- Whether the milliseconds of a reading are an integer of 64 bits. -/
def History.Clock.isInRange (now : Clock) : Bool :=
  -2 ^ 63 ≤ now.millis && now.millis < 2 ^ 63

/-- Whether the rate of an operation is finite and its bound an integer of 64 bits. -/
def Operation.isStorable : Operation → Bool
  | .setTax settings => settings.rate.isFinite
  | .setBound bound => bound < 2 ^ 64
  | _ => true

namespace Desk

variable {σ : Type} [Store.Backing σ]

/-- A desk after some operations at some moments, every value of which could be stored. -/
def run (d : Desk σ) (steps : List (Clock × Operation)) : Desk σ :=
  steps.foldl (fun d step ↦ (d.perform step.1 (fun _ ↦ true) step.2).1) d

/-- Values that can be stored are stored one after the other. -/
theorem entries_storeAll [Keeps σ] (store : σ) (writes : List Store.Write) :
    Store.Backing.entries (storeAll store writes fun _ ↦ true) =
      writes.foldl put (Store.Backing.entries store) := by
  induction writes generalizing store with
  | nil => rfl
  | cons w ws ih => rw [storeAll, ih, Keeps.entries_set, List.foldl_cons]

end Desk

namespace Kept

/-- What is kept is what is stored, with defaults for what is not, and nothing of it is lost when it
is stored again. -/
structure Stored (k : Kept) (entries : Store.Entries) (defaults : Defaults) : Prop where
  items : loadOr entries Store.historyKey (Json.asList? History.Item.ofJson?) [] = k.items
  bound : Ledger.clampBound (loadOr entries Store.boundKey Json.asSize? defaults.maxHistory) =
    k.bound
  tax : loadOr entries Store.taxKey Tax.Settings.ofJson? defaults.tax = k.tax
  layout : loadOr entries Store.layoutKey Json.asString? defaults.buttonLayout = k.layout
  storable : ∀ i ∈ k.items, i.Storable
  rate : k.tax.rate.isFinite

namespace Stored

variable {k : Kept} {entries : Store.Entries} {defaults : Defaults}

/-- Recorded calculations are stored. -/
theorem put_items (h : k.Stored entries defaults) {items : List History.Item}
    (hitems : ∀ i ∈ items, i.Storable) :
    Stored { k with items } (put entries (Store.write Store.historyKey (Store.itemsJson items)))
      defaults := by
  constructor
  · exact Store.loadOr_put_self (Store.asList?_sorted_itemsJson hitems) []
  · rw [Store.loadOr_put_of_ne (by decide)]
    exact h.bound
  · rw [Store.loadOr_put_of_ne (by decide)]
    exact h.tax
  · rw [Store.loadOr_put_of_ne (by decide)]
    exact h.layout
  · exact hitems
  · exact h.rate

/-- A bound is stored. -/
theorem put_bound (h : k.Stored entries defaults) {bound : Nat} (hpos : 0 < bound)
    (hlt : bound < 2 ^ 64) :
    Stored { k with bound } (put entries (Store.write Store.boundKey (Store.sizeJson bound)))
      defaults := by
  constructor
  · rw [Store.loadOr_put_of_ne (by decide)]
    exact h.items
  · rw [Store.loadOr_put_self (Store.asSize?_sorted_sizeJson hlt)]
    exact Nat.max_eq_left hpos
  · rw [Store.loadOr_put_of_ne (by decide)]
    exact h.tax
  · rw [Store.loadOr_put_of_ne (by decide)]
    exact h.layout
  · exact h.storable
  · exact h.rate

/-- Tax settings are stored. -/
private theorem put_tax (h : k.Stored entries defaults) {tax : Tax.Settings}
    (hrate : tax.rate.isFinite) :
    Stored { k with tax } (put entries (Store.write Store.taxKey tax.toJson)) defaults := by
  constructor
  · rw [Store.loadOr_put_of_ne (by decide)]
    exact h.items
  · rw [Store.loadOr_put_of_ne (by decide)]
    exact h.bound
  · exact Store.loadOr_put_self (Tax.Settings.ofJson?_sorted_toJson hrate) defaults.tax
  · rw [Store.loadOr_put_of_ne (by decide)]
    exact h.layout
  · exact h.storable
  · exact hrate

/-- A button layout is stored. -/
private theorem put_layout (h : k.Stored entries defaults) (layout : String) :
    Stored { k with layout } (put entries (Store.write Store.layoutKey (.string layout)))
      defaults := by
  constructor
  · rw [Store.loadOr_put_of_ne (by decide)]
    exact h.items
  · rw [Store.loadOr_put_of_ne (by decide)]
    exact h.bound
  · rw [Store.loadOr_put_of_ne (by decide)]
    exact h.tax
  · have hread : Json.asString? (Json.string layout).sorted = some layout := rfl
    exact Store.loadOr_put_self hread defaults.buttonLayout
  · exact h.storable
  · exact h.rate

/-- A session that is restored from what is stored keeps what the live one keeps. -/
theorem restore {s : Session} (h : s.kept.Stored entries defaults) :
    (Session.restore entries defaults).ledger = s.ledger ∧
      (Session.restore entries defaults).tax = s.tax ∧
      (Session.restore entries defaults).buttonLayout = s.buttonLayout := by
  have hitems := h.items
  have hbound := h.bound
  refine ⟨?_, h.tax, h.layout⟩
  change Ledger.ofItems (loadOr entries _ _ _) (loadOr entries _ _ _) = s.ledger
  ext1
  · rw [Ledger.items_ofItems, hitems, hbound]
    exact List.take_of_length_le s.ledger.length_le
  · rw [Ledger.bound_ofItems, hbound]
    rfl

end Stored

/-- A session that is restored from an empty store keeps what the defaults say. -/
private theorem stored_restore_empty {defaults : Defaults} (hrate : defaults.tax.rate.isFinite) :
    (Session.restore [] defaults).kept.Stored [] defaults where
  items := by
    change [] = List.take _ []
    rw [List.take_nil]
  bound := rfl
  tax := rfl
  layout := rfl
  storable i hi := by
    change i ∈ List.take _ [] at hi
    rw [List.take_nil] at hi
    cases hi
  rate := hrate

end Kept

/-! ### What the operations store -/

/-- A bound that is used is an integer of 64 bits if the one that was asked for is. -/
theorem History.Ledger.clampBound_lt {n : Nat} (h : n < 2 ^ 64) : clampBound n < 2 ^ 64 := by
  unfold clampBound
  omega

/-- Ids are integers of 64 bits. -/
private theorem History.Ledger.nextId_range (l : Ledger) {now : Int} (hge : -2 ^ 63 ≤ now)
    (hlt : now < 2 ^ 63) : -2 ^ 63 ≤ l.nextId now ∧ l.nextId now < 2 ^ 63 := by
  have hwrapped (id : Int) : -2 ^ 63 ≤ id.bmod (2 ^ 64) ∧ id.bmod (2 ^ 64) < 2 ^ 63 := by
    constructor
    · have hle : -(((2 ^ 64 : Nat) : Int) / 2) ≤ id.bmod (2 ^ 64) := Int.le_bmod (by decide)
      omega
    · have hlt : id.bmod (2 ^ 64) < (((2 ^ 64 : Nat) : Int) + 1) / 2 := Int.bmod_lt (by decide)
      omega
  unfold nextId
  split
  · split
    · exact hwrapped _
    · exact ⟨hge, hlt⟩
  · exact ⟨hge, hlt⟩

namespace Session

variable {s : Session} {now : Clock} {entries : Store.Entries} {defaults : Defaults}

private theorem hasId_newItem (value : Float) (hnow : now.isInRange) :
    (s.newItem value now).HasId := by
  rw [Clock.isInRange, Bool.and_eq_true, decide_eq_true_iff, decide_eq_true_iff] at hnow
  exact s.ledger.nextId_range hnow.1 hnow.2

/-- Items have ids of 64 bits if those they come from have. -/
theorem Origin.hasId {i : History.Item} (h : s.Origin now i) (hids : ∀ i ∈ s.ledger.items, i.HasId)
    (hnow : now.isInRange) : i.HasId := by
  rcases h with ⟨j, hj, heq⟩ | ⟨value, rfl⟩
  · rw [heq]
    exact hids j hj
  · exact hasId_newItem value hnow

/-- Items lose nothing when they are stored if those they come from do not, and the rate is
finite. -/
theorem Origin.storable {i : History.Item} (h : s.Origin now i)
    (hitems : ∀ i ∈ s.ledger.items, i.Storable) (hrate : s.tax.rate.isFinite)
    (hnow : now.isInRange) : i.Storable := by
  refine ⟨h.hasId (fun j hj ↦ (hitems j hj).id) hnow, ?_⟩
  rcases h with ⟨j, hj, heq⟩ | ⟨value, rfl⟩
  · rw [heq]
    exact (hitems j hj).rate
  · intro x hx
    have hrate' : (if s.tax.isEnabled then some s.tax.rate else none) = some x := hx
    split at hrate'
    · cases hrate'
      exact hrate
    · cases hrate'

/-- Every operation stores what it changes. -/
private theorem stored_perform (h : s.kept.Stored entries defaults) (hnow : now.isInRange)
    {op : Operation} (hop : op.isStorable) :
    (s.perform now op).session.kept.Stored ((s.perform now op).writes.foldl put entries)
      defaults := by
  have hsize {n : Nat} (heq : op = .setBound n) : Ledger.clampBound n < 2 ^ 64 := by
    rw [heq] at hop
    exact Ledger.clampBound_lt (of_decide_eq_true hop)
  cases s.effect_perform now op with
  | nothing hkept hwrites =>
    rw [hkept, hwrites]
    exact h
  | items items horigin hkept hwrites =>
    rw [hkept, hwrites]
    exact h.put_items fun i hi ↦ (horigin i hi).storable h.storable h.rate hnow
  | evicts n heq hevicted hkept hwrites =>
    rw [hkept, hwrites]
    have hbound := h.put_bound (Ledger.clampBound_pos n) (hsize heq)
    exact hbound.put_items fun i hi ↦ h.storable i (List.mem_of_mem_take hi)
  | bound n heq hroom hkept hwrites =>
    rw [hkept, hwrites]
    exact h.put_bound (Ledger.clampBound_pos n) (hsize heq)
  | tax settings heq hkept hwrites =>
    rw [heq] at hop
    rw [hkept, hwrites]
    exact h.put_tax hop
  | layout layout hkept hwrites =>
    rw [hkept, hwrites]
    exact h.put_layout layout

end Session

namespace Desk

variable {σ : Type} [Store.Backing σ] [Keeps σ]

/-- So the store holds what the session has after every operation. -/
private theorem stored_run {d : Desk σ} {defaults : Defaults}
    (h : d.session.kept.Stored (Store.Backing.entries d.store) defaults)
    {steps : List (Clock × Operation)} (hnow : ∀ step ∈ steps, step.1.isInRange)
    (hop : ∀ step ∈ steps, step.2.isStorable) :
    (d.run steps).session.kept.Stored (Store.Backing.entries (d.run steps).store) defaults := by
  induction steps generalizing d with
  | nil => exact h
  | cons step steps ih =>
    obtain ⟨hnow, hnows⟩ := List.forall_mem_cons.mp hnow
    obtain ⟨hop, hops⟩ := List.forall_mem_cons.mp hop
    apply ih _ hnows hops
    have hstep := Session.stored_perform h hnow hop
    rw [← entries_storeAll] at hstep
    exact hstep

/-- If a session starts on an empty store with a finite default rate and every value can be stored,
then after every sequence of operations a second session that is restored from the store has the
same recorded calculations, bound, tax settings and button layout. -/
theorem restore_after_run {store : σ} (hempty : Store.Backing.entries store = [])
    {defaults : Defaults} (hrate : defaults.tax.rate.isFinite) {steps : List (Clock × Operation)}
    (hnow : ∀ step ∈ steps, step.1.isInRange) (hop : ∀ step ∈ steps, step.2.isStorable) :
    let d := (Desk.restore store defaults).run steps
    let restarted := Desk.restore d.store defaults
    restarted.session.ledger = d.session.ledger ∧ restarted.session.tax = d.session.tax ∧
      restarted.session.buttonLayout = d.session.buttonLayout := by
  intro d restarted
  have hstart : (Desk.restore store defaults).session.kept.Stored
      (Store.Backing.entries (Desk.restore store defaults).store) defaults := by
    change (Session.restore (Store.Backing.entries store) defaults).kept.Stored
      (Store.Backing.entries store) defaults
    rw [hempty]
    exact Kept.stored_restore_empty hrate
  exact (stored_run hstart hnow hop).restore

/-- A file that does not exist yet: a tax rate is set, a note and a deletion change the history, an
id comes from the end of the clock's range, and a bound of zero, taken as one, evicts a result. -/
theorem restore_after_evictions :
    let store := Store.File.load .missing
    let steps : List (Clock × Operation) :=
      [(⟨5, 2024, 2, 29, 23, 59⟩, .setTax ⟨true, .custom, 7.5, false⟩),
        (⟨5, 2024, 2, 29, 23, 59⟩, .enter "1÷4".toList), (⟨5, 2024, 2, 29, 23, 59⟩, .calculate),
        (⟨5, 2024, 2, 29, 23, 59⟩, .type ['+']), (⟨5, 2024, 2, 29, 23, 59⟩, .type ['7']),
        (⟨5, 2024, 2, 29, 23, 59⟩, .calculate), (⟨9, 2024, 3, 1, 0, 0⟩, .note 5 "a quarter"),
        (⟨9, 2024, 3, 1, 0, 0⟩, .delete 6), (⟨9, 2024, 3, 1, 0, 0⟩, .setLayout "compact"),
        (⟨9, 2024, 3, 1, 0, 0⟩, .enter "2×3".toList),
        (⟨2 ^ 63 - 1, 2024, 3, 1, 0, 1⟩, .calculate), (⟨9, 2024, 3, 1, 0, 2⟩, .setBound 0)]
    let d := (Desk.restore store .standard).run steps
    let restarted := Desk.restore d.store .standard
    (Store.Backing.entries store = [] ∧ Defaults.standard.tax.rate.isFinite ∧
      (∀ step ∈ steps, step.1.isInRange) ∧ ∀ step ∈ steps, step.2.isStorable) ∧
    d.session.ledger.items.map History.Item.expression = ["2×3"] ∧
    restarted.session.ledger = d.session.ledger ∧ restarted.session.tax = d.session.tax ∧
      restarted.session.buttonLayout = d.session.buttonLayout := by
  intro store steps d restarted
  have hempty : Store.Backing.entries store = [] := rfl
  have hrate : Defaults.standard.tax.rate.isFinite := by decide +kernel
  have hnow : ∀ step ∈ steps, step.1.isInRange := by decide +kernel
  have hop : ∀ step ∈ steps, step.2.isStorable := by decide +kernel
  have hitems : d.session.ledger.items.map History.Item.expression = ["2×3"] := by decide +kernel
  exact ⟨⟨hempty, hrate, hnow, hop⟩, hitems, restore_after_run hempty hrate hnow hop⟩

end Desk

end DeskCalculator
