import DeskCalculator.Proofs.History.Order
import DeskCalculator.Proofs.Session.Restart

/-!
# A calculation is done once

The calculation right after another one finds a result, or the same error again, and so it changes
nothing.
-/

namespace DeskCalculator

open Diagnosis (diagnose)
open Expression (compute CalcError)
open History (Clock Item Ledger)
open Number (displayText)
open Store (Keeps put)

namespace Session

/-- The calculation after a calculation changes nothing and writes nothing. -/
private theorem calculate_calculate (s : Session) (now later : Clock) :
    (s.calculate now).session.calculate later = { session := (s.calculate now).session } := by
  by_cases hidle : s.Idle
  · rw [calculate_of_idle hidle, calculate_of_idle hidle]
  · cases hvalue : compute s.buffer with
    | ok x =>
      rw [calculate_of_value hidle hvalue]
      exact calculate_of_idle (.inl rfl) later
    | error e =>
      -- The buffer is the old one, so the evaluation and the diagnosis are made once more.
      rw [calculate_of_error hidle hvalue]
      have hfailed : ¬ Idle { s with phase := .failed e (diagnose s.buffer e) } := by
        rintro (hexecuted | hzero)
        · cases hexecuted
        · exact hidle (.inr hzero)
      exact calculate_of_error hfailed hvalue later

end Session

namespace Desk

variable {σ : Type} [Store.Backing σ]

/-- What a desk does is what its session replies. -/
private theorem perform_of_reply {d : Desk σ} {now : Clock} {op : Operation} {reply : Reply}
    (h : d.session.perform now op = reply) (succeeds : Nat → Bool) :
    d.perform now succeeds op =
      (⟨reply.session, storeAll d.store reply.writes succeeds⟩, reply) := by
  rw [← h]
  rfl

/-- A calculation whose value can be stored, where every recorded item has a next id: a result and
an empty display stay as they are; an expression without a value stays too, only that its error is
shown; a value goes in front of the recorded calculations under an id above all others, what lies
past the bound falls off, and the display, the last answer and the store follow. Whichever of the
three it was, the next calculation changes nothing. -/
theorem calculate_once [Keeps σ] (d : Desk σ) {now : Clock} (hnow : now.isInRange)
    (hids : ∀ i ∈ d.session.ledger.items, i.id < Ledger.greatestId) :
    let s := d.session
    let after := (d.perform now (fun _ ↦ true) .calculate).1
    (s.Idle → after = d) ∧
    (∀ e, ¬ s.Idle → compute s.buffer = .error e →
      after = ⟨{ s with phase := .failed e (diagnose s.buffer e) }, d.store⟩) ∧
    (∀ x, ¬ s.Idle → compute s.buffer = .ok x → ∃ item : Item,
      item.expression = String.ofList s.buffer ∧ item.result = String.ofList (displayText x) ∧
      (∀ i ∈ s.ledger.items, i.id < item.id) ∧
      after.session.kept = { s.kept with items := (item :: s.ledger.items).take s.ledger.bound } ∧
      after.session.buffer = displayText x ∧ after.session.lastAnswer = some (displayText x) ∧
      after.session.phase = .executed ∧
      Store.Backing.entries after.store =
        put (Store.Backing.entries d.store) after.session.historyWrite) ∧
    ∀ (later : Clock) (succeeds : Nat → Bool),
      after.perform later succeeds .calculate = (after, { session := after.session }) := by
  intro s after
  have hafter : after = ⟨(s.calculate now).session,
      storeAll d.store (s.calculate now).writes fun _ ↦ true⟩ := rfl
  refine ⟨?_, ?_, ?_, ?_⟩
  · intro hidle
    rw [hafter, Session.calculate_of_idle hidle]
    rfl
  · intro e hidle he
    rw [hafter, Session.calculate_of_error hidle he]
    rfl
  · intro x hidle hx
    have hmillis : -2 ^ 63 ≤ now.millis := by
      rw [Clock.isInRange, Bool.and_eq_true] at hnow
      exact of_decide_eq_true hnow.1
    refine ⟨s.newItem x now, rfl, rfl, (Ledger.nextId_bounds hids hmillis).2, ?_⟩
    rw [hafter, Session.calculate_of_value hidle hx]
    exact ⟨rfl, rfl, rfl, rfl, entries_storeAll d.store _⟩
  · intro later succeeds
    have hlater : after.session.perform later .calculate = { session := after.session } :=
      s.calculate_calculate now later
    exact perform_of_reply hlater succeeds

/-- The ledger is full and its newest id is far ahead of the clock, so the result takes the next id
and the oldest item falls off. The second calculation changes nothing. -/
theorem calculate_once_over_full_ledger :
    let item (id : Int) (expression result : String) : Item :=
      ⟨id, expression, result, none, none, none, none, "2024-01-01", "00:00", "rent"⟩
    let session : Session := { Session.fresh .standard none with
      buffer := "7×(6÷3)".toList
      tax := ⟨true, .add15, 15, false⟩
      ledger := .ofItems [item (2 ^ 63 - 2) "2+2" "4", item 1 "1+1" "2"] 2 }
    let d : Desk Store.Memory := ⟨session, ⟨[Store.write Store.boundKey (Store.sizeJson 2)]⟩⟩
    let now : Clock := ⟨5, 2024, 2, 29, 23, 59⟩
    let after := (d.perform now (fun _ ↦ true) .calculate).1
    now.isInRange ∧ (∀ i ∈ session.ledger.items, i.id < Ledger.greatestId) ∧
      ¬ session.Idle ∧ compute session.buffer = .ok 14 ∧ after.session.buffer = displayText 14 ∧
      after.session.ledger.items.map (fun i ↦ (i.id, i.expression)) =
        [(2 ^ 63 - 1, "7×(6÷3)"), (2 ^ 63 - 2, "2+2")] ∧
      after.perform now (fun _ ↦ true) .calculate = (after, { session := after.session }) := by
  intro item session d now after
  have hnow : now.isInRange := by decide
  have hids : ∀ i ∈ session.ledger.items, i.id < Ledger.greatestId := by decide +kernel
  have hidle : ¬ session.Idle := by
    rintro (hexecuted | hzero)
    · cases hexecuted
    · cases hzero
  have hvalue : compute session.buffer = .ok 14 := by decide +kernel
  obtain ⟨-, -, hrecorded, hlater⟩ := calculate_once d hnow hids
  obtain ⟨_, -, -, -, -, hbuffer, -⟩ := hrecorded 14 hidle hvalue
  exact ⟨hnow, hids, hidle, hvalue, hbuffer, by decide +kernel, hlater now fun _ ↦ true⟩

end Desk

end DeskCalculator
