import DeskCalculator.Proofs.Display.Meaning
import DeskCalculator.Proofs.Number.Display
import DeskCalculator.Proofs.Session.Coherence

/-!
# The texts that a session holds

The buffer of a session, its recorded expressions and the repair that it offers all come from one
another by editing. So a property of buffers that editing keeps is a property of all of them, in
every state that is reached without entering a text.
-/

namespace DeskCalculator

open Diagnosis (diagnose)
open Expression (compute)
open Number (displayText)

/-- A property of buffers that holds of the empty display and of a result with an operator after it,
and that typing the keys `Keys` and the editing functions keep; so do repairs if `Fixes` holds. -/
structure Buffer.Stable (P : List Char → Prop) (Keys : Key → Prop) (Fixes : Prop) : Prop where
  zero : P zero
  chained : ∀ x : Float, x.isFinite → ∀ op : Operator, P (displayText x ++ [op.glyph])
  answer : ∀ x : Float, x.isFinite → Keys (.answer (displayText x))
  fresh : ∀ key, Keys key → P key.fresh
  append : ∀ b key, P b → Keys key → P (append b key)
  backspace : ∀ b, P b → P (backspace b)
  toggleSign : ∀ b b', P b → toggleSign? b = some b' → P b'
  parenthesis : ∀ b, P b → P (parenthesis b)
  suggestion : Fixes → ∀ b e fixed, P b → (diagnose b e).suggestion = some fixed → P fixed

/-- Whether an operation enters no text, types only the keys `Keys`, and takes over a repair only if
`Fixes` holds. -/
def Operation.Within (Keys : Buffer.Key → Prop) (Fixes : Prop) : Operation → Prop
  | .type text => ∀ key, Buffer.Key.parse? text = some key → Keys key
  | .press key => Keys key
  | .enter _ => False
  | .acceptFix => Fixes
  | _ => True

namespace Session

/-- The buffer and the recorded expressions have a property, what is shown belongs to the buffer,
and the last answer is the text of a finite number. -/
structure AllTexts (P : List Char → Prop) (s : Session) : Prop where
  coherent : s.Coherent
  buffer : P s.buffer
  answer : ∀ text, s.lastAnswer = some text → ∃ x : Float, x.isFinite ∧ text = displayText x
  items : ∀ item ∈ s.ledger.items, P item.expression.toList

namespace AllTexts

variable {P : List Char → Prop} {Keys : Buffer.Key → Prop} {Fixes : Prop} {s : Session}

theorem fresh (hP : Buffer.Stable P Keys Fixes) (defaults : Defaults) :
    (Session.fresh defaults none).AllTexts P where
  coherent := .of_editing rfl
  buffer := hP.zero
  answer _ h := by cases h
  items item h := by
    rw [Session.fresh, History.Ledger.items_ofItems, List.take_nil] at h
    cases h

/-- Another buffer with the property is edited. -/
theorem edit (h : s.AllTexts P) {b : List Char} (hb : P b) : (s.edit b).AllTexts P where
  coherent := .of_editing rfl
  buffer := hb
  answer := h.answer
  items := h.items

/-- A result that is shown is the text of a finite number. -/
private theorem exists_displayText (h : s.AllTexts P) (hphase : s.phase = .executed) :
    ∃ x : Float, x.isFinite ∧ s.buffer = displayText x :=
  h.answer s.buffer (h.coherent.executed hphase).1

theorem press (hP : Buffer.Stable P Keys Fixes) (h : s.AllTexts P) {key : Buffer.Key}
    (hkey : Keys key) : (s.press key).AllTexts P := by
  unfold Session.press
  apply h.edit
  split
  · exact hP.append _ _ h.buffer hkey
  · next op hphase =>
    obtain ⟨x, hx, hbuffer⟩ := h.exists_displayText hphase
    rw [hbuffer]
    exact hP.chained x hx op
  · exact hP.fresh _ hkey

theorem type (hP : Buffer.Stable P Keys Fixes) (h : s.AllTexts P) {text : List Char}
    (hkeys : ∀ key, Buffer.Key.parse? text = some key → Keys key) : (s.type text).AllTexts P := by
  unfold Session.type
  split
  · next key hkey => exact press hP h (hkeys key hkey)
  · exact h

theorem toggleSign (hP : Buffer.Stable P Keys Fixes) (h : s.AllTexts P) :
    s.toggleSign.AllTexts P := by
  unfold Session.toggleSign
  apply h.edit
  cases hb : Buffer.toggleSign? s.buffer with
  | none => exact h.buffer
  | some b => exact hP.toggleSign _ _ h.buffer hb

theorem parenthesis (hP : Buffer.Stable P Keys Fixes) (h : s.AllTexts P) :
    s.parenthesis.AllTexts P := by
  unfold Session.parenthesis
  apply h.edit
  split
  · have hopening : Buffer.parenthesis Buffer.zero = ['('] := rfl
    rw [← hopening]
    exact hP.parenthesis _ hP.zero
  · exact hP.parenthesis _ h.buffer

theorem typeAnswer (hP : Buffer.Stable P Keys Fixes) (h : s.AllTexts P) :
    s.typeAnswer.AllTexts P := by
  unfold Session.typeAnswer
  split
  · next text htext =>
    obtain ⟨x, hx, rfl⟩ := h.answer text htext
    exact press hP h (hP.answer x hx)
  · exact h

/-- The expression of a result is recorded, and its text is the next answer. -/
theorem finish (hP : Buffer.Stable P Keys Fixes) (h : s.AllTexts P) {value : Float}
    (hvalue : value.isFinite) (now : History.Clock) : (s.finish value now).AllTexts P where
  coherent := .finish s value now
  buffer := hP.fresh _ (hP.answer value hvalue)
  answer text htext := by
    cases htext
    exact ⟨value, hvalue, rfl⟩
  items item hitem := by
    rw [Session.finish, History.Ledger.items_push] at hitem
    rcases List.mem_cons.mp (List.mem_of_mem_take hitem) with rfl | hitem
    · rw [Session.newItem, History.Item.record, String.toList_ofList]
      exact h.buffer
    · exact h.items item hitem

theorem calculate (hP : Buffer.Stable P Keys Fixes) (h : s.AllTexts P) (now : History.Clock) :
    (s.calculate now).session.AllTexts P := by
  by_cases hidle : s.Idle
  · rwa [calculate_of_idle hidle]
  · cases hvalue : compute s.buffer with
    | ok value =>
      rw [calculate_of_value hidle hvalue]
      exact finish hP h (Display.isFinite_of_compute hvalue) now
    | error e =>
      have hcoherent := h.coherent.calculate now
      rw [calculate_of_error hidle hvalue] at hcoherent ⊢
      exact ⟨hcoherent, h.buffer, h.answer, h.items⟩

/-- A repair that is offered is one of the buffer. -/
theorem acceptFix (hP : Buffer.Stable P Keys Fixes) (h : s.AllTexts P) (hfixes : Fixes) :
    s.acceptFix.AllTexts P := by
  unfold Session.acceptFix
  split
  · next fixed hfixed =>
    obtain ⟨d, hd, hfixed⟩ := Option.bind_eq_some_iff.mp hfixed
    apply h.edit
    unfold Session.diagnosis? at hd
    split at hd
    · next e d' hphase =>
      cases hd
      obtain ⟨-, rfl⟩ := h.coherent.failed e d hphase
      exact hP.suggestion hfixes _ _ _ h.buffer hfixed
    · cases hd
  · exact h

theorem clearAll (hP : Buffer.Stable P Keys Fixes) (h : s.AllTexts P) : s.clearAll.AllTexts P where
  coherent := .of_editing rfl
  buffer := hP.zero
  answer := h.answer
  items := h.items

theorem load (h : s.AllTexts P) (id : Int) : (s.load id).session.AllTexts P := by
  unfold Session.load
  split
  · next item hitem =>
    exact ⟨.of_editing rfl, h.items item (List.mem_of_find?_eq_some hitem), h.answer, h.items⟩
  · exact h

/-- Other recorded calculations do not change the display. -/
theorem withItems (h : s.AllTexts P) {ledger : History.Ledger}
    (hledger : ∀ item ∈ ledger.items, P item.expression.toList) :
    ({ s with ledger } : Session).AllTexts P :=
  ⟨h.coherent.congr ⟨rfl, rfl, rfl, rfl⟩, h.buffer, h.answer, hledger⟩

theorem withLedger (h : s.AllTexts P) {change : History.Ledger × Bool}
    (hledger : ∀ item ∈ change.1.items, P item.expression.toList) :
    (s.withLedger change).session.AllTexts P := by
  unfold Session.withLedger
  dsimp only
  split
  · exact h.withItems hledger
  · exact h.withItems hledger

theorem clearHistory (h : s.AllTexts P) : s.clearHistory.session.AllTexts P := by
  unfold Session.clearHistory
  split
  · exact h
  · exact h.withItems fun item hitem ↦ by cases hitem

/-- Every operation but entering a text keeps the property. -/
theorem perform (hP : Buffer.Stable P Keys Fixes) (h : s.AllTexts P) (now : History.Clock)
    {op : Operation} (hop : op.Within Keys Fixes) : (s.perform now op).session.AllTexts P := by
  cases op with
  | type text => exact type hP h hop
  | press key => exact press hP h hop
  | backspace => exact h.edit (hP.backspace _ h.buffer)
  | toggleSign => exact toggleSign hP h
  | parenthesis => exact parenthesis hP h
  | typeAnswer => exact typeAnswer hP h
  | calculate => exact calculate hP h now
  | acceptFix => exact acceptFix hP h hop
  | clearAll => exact clearAll hP h
  | enter text => exact hop.elim
  | load id => exact h.load id
  | delete id =>
    exact h.withLedger fun item hitem ↦ h.items item (List.mem_filter.mp hitem).1
  | note id text =>
    refine h.withLedger fun item hitem ↦ ?_
    obtain ⟨j, hj, heq⟩ := History.Ledger.exists_of_mem_noteItem hitem
    rw [heq]
    exact h.items j hj
  | clearHistory => exact h.clearHistory
  | setTax settings => exact ⟨h.coherent.congr ⟨rfl, rfl, rfl, rfl⟩, h.buffer, h.answer, h.items⟩
  | setBound bound =>
    exact h.withItems fun item hitem ↦ h.items item (List.mem_of_mem_take hitem)
  | setLayout layout => exact ⟨h.coherent.congr ⟨rfl, rfl, rfl, rfl⟩, h.buffer, h.answer, h.items⟩

/-- So does every run, from an empty display on. -/
theorem run (hP : Buffer.Stable P Keys Fixes) (defaults : Defaults)
    {steps : List (History.Clock × Operation)} (hsteps : ∀ step ∈ steps, step.2.Within Keys Fixes) :
    ((Session.fresh defaults none).run steps).AllTexts P :=
  run_induction (fresh hP defaults) fun step hstep _ hs ↦ perform hP hs step.1 (hsteps step hstep)

end AllTexts

end Session

end DeskCalculator
