import DeskCalculator.Proofs.Session.Restart
import DeskCalculator.Session.World

/-!
# A calculator does what a session does

A session is what a calculator may look like: its phase fixes the error, the suggestion and the mark
of a calculated buffer. A calculator that shows a session performs every operation as the session
does, however its writes turn out, and shows the next session afterwards. So every calculator that
starts empty or from a store shows a session for as long as it runs.
-/

namespace DeskCalculator

open History (Clock)

namespace World

variable {σ : Type}

/-- What no step touches is as before after all of them. -/
theorem foldl_untouched {α β : Type} (step : World σ → α → World σ) (part : World σ → β)
    (h : ∀ w a, part (step w a) = part w) (w : World σ) (as : List α) :
    part (as.foldl step w) = part w := by
  induction as generalizing w with
  | nil => rfl
  | cons a as ih => rw [List.foldl_cons, ih, h]

variable [Store.Backing σ]

/-- The world after a value has been stored, as far as that works. -/
def afterWrite (w : World σ) (write : Store.Write) : World σ :=
  (w.set write).2

/-- The world after the writes and the notices of a reply. -/
def after (w : World σ) (reply : Reply) : World σ :=
  (reply.notices.map Shown.notice).foldl tell (reply.writes.foldl afterWrite w)

private theorem store_foldl_afterWrite (w : World σ) (writes : List Store.Write) :
    (writes.foldl afterWrite w).store =
      Desk.storeAll w.store writes fun n ↦ w.succeeds (w.writes.length + n) := by
  induction writes generalizing w with
  | nil => rfl
  | cons write writes ih =>
    have hsucceeds : (w.afterWrite write).succeeds = w.succeeds := rfl
    have hwrites : (w.afterWrite write).writes.length = w.writes.length + 1 := List.length_append
    have hstore : (w.afterWrite write).store =
        (Store.Backing.set w.store write (w.succeeds w.writes.length)).1 := rfl
    simp only [List.foldl_cons, ih, Desk.storeAll, hsucceeds, hwrites, hstore, Nat.add_zero,
      Nat.add_assoc, Nat.add_comm 1]

/-- The store takes the writes of a reply in order, each as its own turn says. -/
theorem store_after (w : World σ) (reply : Reply) :
    (w.after reply).store =
      Desk.storeAll w.store reply.writes fun n ↦ w.succeeds (w.writes.length + n) := by
  rw [after, foldl_untouched tell store fun _ _ ↦ rfl, store_foldl_afterWrite]

/-- Which of the writes succeed is settled beforehand. -/
theorem succeeds_after (w : World σ) (reply : Reply) : (w.after reply).succeeds = w.succeeds := by
  rw [after, foldl_untouched tell succeeds fun _ _ ↦ rfl,
    foldl_untouched afterWrite succeeds fun _ _ ↦ rfl]

/-- The world after a session has performed operations one after the other. -/
def afterAll (w : World σ) (s : Session) : List (Clock × Operation) → World σ
  | [] => w
  | step :: steps =>
    let reply := s.perform step.1 step.2
    (w.after reply).afterAll reply.session steps

end World

namespace Calculator

/-! ### Sessions as calculators -/

/-- The error that a phase shows. -/
def errorOf : Phase → Option ErrorState
  | .failed e d => some ⟨e.message, d.details⟩
  | _ => none

/-- What a phase proposes about its error. -/
def suggestionOf : Phase → Option Suggestion
  | .failed _ d => some ⟨d.hint, d.suggestion⟩
  | _ => none

/-- The calculator that shows a session. -/
def ofSession (s : Session) : Calculator where
  buffer := s.buffer
  executed := s.isExecuted
  error := errorOf s.phase
  suggestion := suggestionOf s.phase
  lastAnswer := s.lastAnswer
  lastOutcome := s.lastOutcome
  tax := s.tax
  buttonLayout := s.buttonLayout
  ledger := s.ledger

variable {σ : Type} (w : World σ) (s : Session)

/-! ### The display -/

theorem press_ofSession (key : Buffer.Key) :
    w.run (press key) (ofSession s) = (((), ofSession (s.press key)), w) := by
  rcases s with ⟨buffer, phase⟩
  cases phase with
  | editing => rfl
  | executed => cases key <;> rfl
  | failed e d => cases key <;> rfl

theorem type_ofSession (text : List Char) :
    w.run (type text) (ofSession s) = (((), ofSession (s.type text)), w) := by
  rw [type, Session.type]
  cases Buffer.Key.parse? text with
  | some key => exact press_ofSession w s key
  | none => rfl

private theorem backspace_ofSession :
    w.run backspace (ofSession s) = (((), ofSession s.backspace), w) :=
  rfl

private theorem toggleSign_ofSession :
    w.run toggleSign (ofSession s) = (((), ofSession s.toggleSign), w) := by
  have hbuffer : (ofSession s).buffer = s.buffer := rfl
  simp only [toggleSign, clearError, setExecuted, World.run_bind, World.run_modify, World.run_get,
    Session.toggleSign, hbuffer]
  cases Buffer.toggleSign? s.buffer <;> rfl

private theorem parenthesis_ofSession :
    w.run parenthesis (ofSession s) = (((), ofSession s.parenthesis), w) :=
  rfl

private theorem typeAnswer_ofSession :
    w.run typeAnswer (ofSession s) = (((), ofSession s.typeAnswer), w) := by
  have hanswer : (ofSession s).lastAnswer = s.lastAnswer := rfl
  rw [typeAnswer, World.run_bind, World.run_get, Session.typeAnswer, hanswer]
  cases s.lastAnswer with
  | some answer => exact press_ofSession w s _
  | none => rfl

/-- What is proposed is what the diagnosis suggests. -/
private theorem bind_fix_suggestionOf (s : Session) :
    (suggestionOf s.phase).bind Suggestion.fix = s.diagnosis?.bind (·.suggestion) := by
  rw [Session.diagnosis?]
  cases s.phase <;> rfl

private theorem acceptFix_ofSession :
    w.run acceptFix (ofSession s) = (((), ofSession s.acceptFix), w) := by
  have hsuggestion : (ofSession s).suggestion = suggestionOf s.phase := rfl
  rw [acceptFix, World.run_bind, World.run_get, Session.acceptFix, hsuggestion,
    bind_fix_suggestionOf]
  cases s.diagnosis?.bind (·.suggestion) <;> rfl

private theorem clearAll_ofSession :
    w.run clearAll (ofSession s) = (((), ofSession s.clearAll), w) :=
  rfl

private theorem enter_ofSession (text : List Char) :
    w.run (enter text) (ofSession s) = (((), ofSession (s.enter text)), w) :=
  rfl

variable [Store.Backing σ]

/-! ### The store -/

theorem run_persistHistory (c : Calculator) :
    w.run persistHistory c =
      (((), c), w.afterWrite (Store.write Store.historyKey (Store.itemsJson c.ledger.items))) := by
  rw [persistHistory, World.run_bind, World.run_get, World.run_persist]
  rfl

/-- A result is recorded before the error is taken down and the result is shown. -/
private theorem record_ofSession (now : Clock) (value : Float) :
    w.run (record now s.buffer value) (ofSession s) =
      (((), ofSession (s.finish value now)),
        w.afterWrite (s.finish value now).historyWrite) := by
  have hresult : (s.newItem value now).result.toList = Number.displayText value :=
    String.toList_ofList
  have hitem : History.Item.record ((ofSession s).ledger.nextId now.millis)
      (String.ofList s.buffer) value (ofSession s).tax now = s.newItem value now := rfl
  simp only [record, clearError, setBuffer, World.run_bind, World.run_get, World.run_modify,
    run_persistHistory, hitem, hresult]
  rfl

private theorem calculate_ofSession (now : Clock) :
    w.run (calculate now) (ofSession s) =
      (((), ofSession (s.calculate now).session), w.after (s.calculate now)) := by
  have hexecuted : (ofSession s).executed = s.isExecuted := rfl
  have hbuffer : (ofSession s).buffer = s.buffer := rfl
  rw [calculate, World.run_bind, World.run_get, Session.calculate, hexecuted, hbuffer]
  split
  · rfl
  · cases Expression.compute s.buffer with
    | ok value => exact record_ofSession w s now value
    | error e => rfl

private theorem load_ofSession (id : Int) :
    w.run (some <$> load id) (ofSession s) =
      (((s.load id).found, ofSession (s.load id).session), w.after (s.load id)) := by
  have hledger : (ofSession s).ledger = s.ledger := rfl
  rw [map_eq_pure_bind, World.run_bind, load, World.run_bind, World.run_get, Session.load, hledger]
  cases s.ledger.get? id <;> rfl

private theorem changeLedger_ofSession (change : History.Ledger → History.Ledger × Bool) :
    let reply := s.withLedger (change s.ledger)
    w.run (some <$> changeLedger change) (ofSession s) =
      ((reply.found, ofSession reply.session), w.after reply) := by
  have hledger : (ofSession s).ledger = s.ledger := rfl
  simp only [map_eq_pure_bind, changeLedger, setLedger, World.run_bind, World.run_get,
    World.run_modify, Session.withLedger, hledger]
  cases (change s.ledger).2 with
  | true =>
    rw [if_pos rfl, World.run_bind, run_persistHistory]
    rfl
  | false => rfl

private theorem clearHistory_ofSession :
    w.run clearHistory (ofSession s) =
      (((), ofSession s.clearHistory.session), w.after s.clearHistory) := by
  have hledger : (ofSession s).ledger = s.ledger := rfl
  rw [clearHistory, World.run_bind, World.run_get, Session.clearHistory, hledger]
  cases s.ledger.items.isEmpty with
  | true => rfl
  | false =>
    simp only [Bool.false_eq_true, if_false, setLedger, World.run_bind, World.run_modify,
      run_persistHistory, World.run_notify]
    rfl

theorem setTax_ofSession (settings : Tax.Settings) :
    w.run (setTax settings) (ofSession s) =
      (((), ofSession (s.setTax settings).session), w.after (s.setTax settings)) := by
  rw [setTax, World.run_bind, World.run_modify, World.run_persist]
  rfl

/-- The bound is stored first, and the history only if items fell off. -/
theorem setBound_ofSession (bound : Nat) :
    w.run (setBound bound) (ofSession s) =
      (((), ofSession (s.setBound bound).session), w.after (s.setBound bound)) := by
  have hledger : (ofSession s).ledger = s.ledger := rfl
  simp only [setBound, setLedger, World.run_bind, World.run_get, World.run_modify,
    World.run_persist, Session.setBound, hledger]
  by_cases hevicted : 0 < (s.ledger.setBound bound).2
  · rw [if_pos hevicted, if_pos hevicted, run_persistHistory]
    rfl
  · rw [if_neg hevicted, if_neg hevicted]
    rfl

private theorem setLayout_ofSession (layout : String) :
    w.run (setLayout layout) (ofSession s) =
      (((), ofSession (s.setLayout layout).session), w.after (s.setLayout layout)) := by
  rw [setLayout, World.run_bind, World.run_modify, World.run_persist]
  rfl

/-! ### Every operation -/

/-- An operation that looks for no item answers nothing. -/
theorem run_answerless {act : Action (StateM (World σ)) Unit} {reply : Reply}
    (hfound : reply.found = none)
    (hact : w.run act (ofSession s) = (((), ofSession reply.session), w.after reply)) :
    w.run (do act; return none) (ofSession s) =
      ((reply.found, ofSession reply.session), w.after reply) := by
  rw [World.run_bind, hact, World.run_pure, hfound]

/-- A calculator that shows a session answers every operation as the session does, asks the host for
what the session wants to be stored and notified, and shows the next session. -/
theorem perform_ofSession (now : Clock) (op : Operation) :
    let reply := s.perform now op
    w.run (perform now op) (ofSession s) =
      ((reply.found, ofSession reply.session), w.after reply) := by
  intro reply
  cases op with
  | type text => exact run_answerless w s rfl (type_ofSession w s text)
  | press key => exact run_answerless w s rfl (press_ofSession w s key)
  | backspace => exact run_answerless w s rfl (backspace_ofSession w s)
  | toggleSign => exact run_answerless w s rfl (toggleSign_ofSession w s)
  | parenthesis => exact run_answerless w s rfl (parenthesis_ofSession w s)
  | typeAnswer => exact run_answerless w s rfl (typeAnswer_ofSession w s)
  | calculate =>
    have hfound : (s.calculate now).found = none := by
      rw [Session.calculate]
      split
      · rfl
      · cases Expression.compute s.buffer <;> rfl
    exact run_answerless w s hfound (calculate_ofSession w s now)
  | acceptFix => exact run_answerless w s rfl (acceptFix_ofSession w s)
  | clearAll => exact run_answerless w s rfl (clearAll_ofSession w s)
  | enter text => exact run_answerless w s rfl (enter_ofSession w s text)
  | load id => exact load_ofSession w s id
  | delete id => exact changeLedger_ofSession w s _
  | note id text => exact changeLedger_ofSession w s _
  | clearHistory =>
    have hfound : s.clearHistory.found = none := by
      rw [Session.clearHistory]
      split <;> rfl
    exact run_answerless w s hfound (clearHistory_ofSession w s)
  | setTax settings => exact run_answerless w s rfl (setTax_ofSession w s settings)
  | setBound bound => exact run_answerless w s rfl (setBound_ofSession w s bound)
  | setLayout layout => exact run_answerless w s rfl (setLayout_ofSession w s layout)

/-! ### Starting -/

theorem start_eq_ofSession (defaults : Defaults) (lastAnswer : Option (List Char)) :
    start defaults lastAnswer [] = ofSession (.fresh defaults lastAnswer) :=
  rfl

/-- A restored calculator shows the restored session. -/
theorem restore_eq_ofSession (defaults : Defaults) :
    w.restore defaults = (ofSession (.restore (Store.Backing.entries w.store) defaults), w) :=
  rfl

/-! ### Runs -/

theorem performAll_ofSession (steps : List (Clock × Operation)) :
    w.run (performAll steps) (ofSession s) =
      (((), ofSession (s.run steps)), w.afterAll s steps) := by
  induction steps generalizing w s with
  | nil => rfl
  | cons step steps ih =>
    rw [performAll, World.run_bind, perform_ofSession, ih]
    rfl

/-- If all writes succeed, the session and the store are those of a desk. -/
theorem desk_afterAll (hsucceeds : ∀ n, w.succeeds n) (steps : List (Clock × Operation)) :
    (⟨s.run steps, (w.afterAll s steps).store⟩ : Desk σ) = Desk.run ⟨s, w.store⟩ steps := by
  induction steps generalizing w s with
  | nil => rfl
  | cons step steps ih =>
    let reply := s.perform step.1 step.2
    have hstore : (w.after reply).store = Desk.storeAll w.store reply.writes fun _ ↦ true := by
      rw [World.store_after]
      exact congrArg _ (funext fun n ↦ hsucceeds _)
    have hrest := ih (w.after reply) reply.session (by rwa [World.succeeds_after])
    rw [hstore] at hrest
    exact hrest

end Calculator

end DeskCalculator
