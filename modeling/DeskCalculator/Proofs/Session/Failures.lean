import DeskCalculator.Session.World

/-!
# A calculator whose values cannot be stored

A calculator goes on as if nothing had happened when a value cannot be stored. All that it shows and
answers, and all that it asks its host for, is the same whichever of its writes fail: every
operation is put together from steps that learn nothing from the store.
-/

namespace DeskCalculator

open History (Clock)

/-- What can be observed after an operation: all that the calculator shows and keeps, what the
operation answers, and what the user has been told and the store been asked to keep so far. -/
structure Observation where
  calculator : Calculator
  found : Option Bool
  shown : List Shown
  writes : List Store.Write

namespace World

variable {σ : Type}

/-- Whether the same has been asked for and shown in two worlds. Their stores may differ, and so may
the writes that succeed in them. -/
structure Alike (w w' : World σ) : Prop where
  writes : w.writes = w'.writes
  shown : w.shown = w'.shown

/-- Whether an action learns nothing from the store: in worlds that are alike it comes to the same,
and leaves them alike. -/
def Blind {α : Type} (act : Action (StateM (World σ)) α) : Prop :=
  ∀ (c : Calculator) (w w' : World σ), w.Alike w' →
    (w.run act c).1 = (w'.run act c).1 ∧ (w.run act c).2.Alike (w'.run act c).2

namespace Blind

/-! ### Steps -/

variable {α β : Type}

theorem pure (a : α) : Blind (σ := σ) (pure a) := fun _ _ _ h ↦ ⟨rfl, h⟩

theorem bind {act : Action (StateM (World σ)) α} {next : α → Action (StateM (World σ)) β}
    (hact : Blind act) (hnext : ∀ a, Blind (next a)) : Blind (act >>= next) := by
  intro c w w' h
  obtain ⟨hsame, halike⟩ := hact c w w' h
  rw [run_bind, run_bind, hsame]
  exact hnext _ _ _ _ halike

theorem get : Blind (σ := σ) get := fun _ _ _ h ↦ ⟨rfl, h⟩

theorem modify (f : Calculator → Calculator) : Blind (σ := σ) (modify f) := fun _ _ _ h ↦ ⟨rfl, h⟩

variable [Store.Backing σ]

/-- A notice is shown in both worlds. -/
theorem notify (message : String) :
    Blind (Host.notify message : Action (StateM (World σ)) Unit) := by
  intro c w w' h
  rw [run_notify, run_notify]
  exact ⟨rfl, h.writes, congrArg (· ++ _) h.shown⟩

/-- Both stores are asked for a write, and it is not looked at what they answer. -/
theorem persist (write : Store.Write) :
    Blind (Calculator.persist write : Action (StateM (World σ)) Unit) := by
  intro c w w' h
  rw [run_persist, run_persist]
  exact ⟨rfl, congrArg (· ++ _) h.writes, h.shown⟩

end Blind

end World

namespace Calculator

open World (Blind)

variable {σ : Type}

/-! ### Operations -/

private theorem blind_nextBuffer (key : Buffer.Key) :
    Blind (nextBuffer key : Action (StateM (World σ)) (List Char)) := by
  refine .bind .get fun c ↦ ?_
  split
  · exact .bind (.modify _) fun _ ↦ .pure _
  · split
    · split <;> exact .pure _
    · exact .pure _

private theorem blind_press (key : Buffer.Key) :
    Blind (press key : Action (StateM (World σ)) Unit) :=
  .bind (blind_nextBuffer key) fun _ ↦ .bind (.modify _) fun _ ↦ .modify _

private theorem blind_type (text : List Char) :
    Blind (type text : Action (StateM (World σ)) Unit) := by
  rw [type]
  split
  · exact blind_press _
  · exact .pure _

private theorem blind_backspace : Blind (backspace : Action (StateM (World σ)) Unit) :=
  .bind (.modify _) fun _ ↦ .bind (.modify _) fun _ ↦ .bind .get fun _ ↦ .modify _

private theorem blind_toggleSign : Blind (toggleSign : Action (StateM (World σ)) Unit) := by
  refine .bind (.modify _) fun _ ↦ .bind (.modify _) fun _ ↦ .bind .get fun c ↦ ?_
  split
  · exact .modify _
  · exact .pure _

private theorem blind_parenthesis : Blind (parenthesis : Action (StateM (World σ)) Unit) :=
  .bind (.modify _) fun _ ↦ .bind .get fun _ ↦ .bind (.modify _) fun _ ↦ .modify _

private theorem blind_typeAnswer : Blind (typeAnswer : Action (StateM (World σ)) Unit) := by
  refine .bind .get fun c ↦ ?_
  split
  · exact blind_press _
  · exact .pure _

private theorem blind_acceptFix : Blind (acceptFix : Action (StateM (World σ)) Unit) := by
  refine .bind .get fun c ↦ ?_
  split
  · exact .bind (.modify _) fun _ ↦ .bind (.modify _) fun _ ↦ .modify _
  · exact .pure _

private theorem blind_clearAll : Blind (clearAll : Action (StateM (World σ)) Unit) :=
  .bind (.modify _) fun _ ↦ .bind (.modify _) fun _ ↦ .bind (.modify _) fun _ ↦ .modify _

private theorem blind_enter (text : List Char) :
    Blind (enter text : Action (StateM (World σ)) Unit) :=
  .bind (.modify _) fun _ ↦ .bind (.modify _) fun _ ↦ .modify _

private theorem blind_load (id : Int) : Blind (load id : Action (StateM (World σ)) Bool) := by
  refine .bind .get fun c ↦ ?_
  split
  · exact .pure _
  · exact .bind (.modify _) fun _ ↦ .bind (.modify _) fun _ ↦ .bind (.modify _) fun _ ↦
      .bind (.modify _) fun _ ↦ .pure _

variable [Store.Backing σ]

private theorem blind_persistHistory : Blind (persistHistory : Action (StateM (World σ)) Unit) :=
  .bind .get fun _ ↦ .persist _

/-- A result is shown whether it could be stored or not. -/
private theorem blind_record (now : Clock) (expression : List Char) (value : Float) :
    Blind (record now expression value : Action (StateM (World σ)) Unit) :=
  .bind .get fun _ ↦ .bind (.modify _) fun _ ↦ .bind blind_persistHistory fun _ ↦
    .bind (.modify _) fun _ ↦ .bind (.modify _) fun _ ↦ .modify _

private theorem blind_calculate (now : Clock) :
    Blind (calculate now : Action (StateM (World σ)) Unit) := by
  refine .bind .get fun c ↦ ?_
  split
  · exact .pure _
  · split
    · exact blind_record now _ _
    · exact .modify _

private theorem blind_clearHistory : Blind (clearHistory : Action (StateM (World σ)) Unit) := by
  refine .bind .get fun c ↦ ?_
  split
  · exact .notify _
  · exact .bind (.modify _) fun _ ↦ .bind blind_persistHistory fun _ ↦ .notify _

private theorem blind_changeLedger (change : History.Ledger → History.Ledger × Bool) :
    Blind (changeLedger change : Action (StateM (World σ)) Bool) := by
  refine .bind .get fun c ↦ .bind (.modify _) fun _ ↦ ?_
  split
  · exact .bind blind_persistHistory fun _ ↦ .pure _
  · exact .pure _

private theorem blind_setTax (settings : Tax.Settings) :
    Blind (setTax settings : Action (StateM (World σ)) Unit) :=
  .bind (.modify _) fun _ ↦ .persist _

/-- The history is stored also if the bound could not be. -/
private theorem blind_setBound (bound : Nat) :
    Blind (setBound bound : Action (StateM (World σ)) Unit) := by
  refine .bind .get fun c ↦ .bind (.modify _) fun _ ↦ .bind (.persist _) fun _ ↦ ?_
  split
  · exact blind_persistHistory
  · exact .pure _

private theorem blind_setLayout (layout : String) :
    Blind (setLayout layout : Action (StateM (World σ)) Unit) :=
  .bind (.modify _) fun _ ↦ .persist _

/-- Every operation is put together from steps that learn nothing from the store. -/
theorem blind_perform (now : Clock) (op : Operation) :
    Blind (perform now op : Action (StateM (World σ)) (Option Bool)) := by
  cases op with
  | type text => exact .bind (blind_type text) fun _ ↦ .pure _
  | press key => exact .bind (blind_press key) fun _ ↦ .pure _
  | backspace => exact .bind blind_backspace fun _ ↦ .pure _
  | toggleSign => exact .bind blind_toggleSign fun _ ↦ .pure _
  | parenthesis => exact .bind blind_parenthesis fun _ ↦ .pure _
  | typeAnswer => exact .bind blind_typeAnswer fun _ ↦ .pure _
  | calculate => exact .bind (blind_calculate now) fun _ ↦ .pure _
  | acceptFix => exact .bind blind_acceptFix fun _ ↦ .pure _
  | clearAll => exact .bind blind_clearAll fun _ ↦ .pure _
  | enter text => exact .bind (blind_enter text) fun _ ↦ .pure _
  | load id => exact .bind (blind_load id) fun _ ↦ .pure _
  | delete id => exact .bind (blind_changeLedger _) fun _ ↦ .pure _
  | note id text => exact .bind (blind_changeLedger _) fun _ ↦ .pure _
  | clearHistory => exact .bind blind_clearHistory fun _ ↦ .pure _
  | setTax settings => exact .bind (blind_setTax settings) fun _ ↦ .pure _
  | setBound bound => exact .bind (blind_setBound bound) fun _ ↦ .pure _
  | setLayout layout => exact .bind (blind_setLayout layout) fun _ ↦ .pure _

end Calculator

namespace World

variable {σ : Type} [Store.Backing σ]

/-- What is observed after each of some operations. -/
def observe (w : World σ) (c : Calculator) : List (Clock × Operation) → List Observation
  | [] => []
  | step :: steps =>
    let performed := w.run (Calculator.perform step.1 step.2) c
    let next := performed.2
    ⟨performed.1.2, performed.1.1, next.shown, next.writes⟩ :: next.observe performed.1.2 steps

/-- In worlds that are alike the same is observed. -/
private theorem observe_eq_of_alike {w w' : World σ} (h : w.Alike w') (c : Calculator)
    (steps : List (Clock × Operation)) : w.observe c steps = w'.observe c steps := by
  induction steps generalizing w w' c with
  | nil => rfl
  | cons step steps ih =>
    obtain ⟨hsame, halike⟩ := Calculator.blind_perform step.1 step.2 c w w' h
    rw [observe, observe, hsame, halike.shown, halike.writes, ih halike]

/-- Whatever is stored at the beginning and whatever is done: which writes fail makes no difference
to what is observed of a restored calculator after any operation. -/
theorem observations_unchanged_by_failures (store : σ) (defaults : Defaults)
    (steps : List (Clock × Operation)) (succeeds succeeds' : Nat → Bool) :
    let w : World σ := { store, succeeds }
    let w' : World σ := { store, succeeds := succeeds' }
    w.observe (w.restore defaults).1 steps = w'.observe (w'.restore defaults).1 steps := by
  intro w w'
  have halike : w.Alike w' := ⟨rfl, rfl⟩
  exact observe_eq_of_alike halike (w.restore defaults).1 steps

/-- Two results are recorded, the bound is lowered to one, so that the bound and then the history
are stored, and the history is cleared, which is done only once. If no write succeeds the store
stays empty, and yet nothing else differs from the run in which only the bound cannot be stored. -/
theorem observations_of_lost_bound :
    let steps := List.map (Prod.mk (⟨7, 2024, 2, 29, 23, 59⟩ : Clock))
      [.enter "1÷4".toList, .calculate, .type ['+'], .type ['7'], .calculate, .setBound 1,
        .clearHistory, .clearHistory]
    let w : World Store.Memory := { store := ⟨[]⟩, succeeds := fun _ ↦ false }
    let w' : World Store.Memory := { store := ⟨[]⟩, succeeds := fun n ↦ n != 2 }
    let start := (w.restore .standard).1
    let final := w.run (Calculator.performAll steps) start
    let final' := w'.run (Calculator.performAll steps) start
    final.1.2.buffer = "7.25".toList ∧
    final.2.writes.map Prod.fst = ["history", "history", "maxHistory", "history", "history"] ∧
    final.2.shown = [.notice "History cleared.", .notice "History is already empty."] ∧
    final.2.store.entries.map Prod.fst = [] ∧ final'.2.store.entries.map Prod.fst = ["history"] ∧
    w.observe start steps = w'.observe (w'.restore .standard).1 steps := by
  intro steps w w' start final final'
  have hbuffer : final.1.2.buffer = "7.25".toList := by decide +kernel
  have hwrites : final.2.writes.map Prod.fst =
      ["history", "history", "maxHistory", "history", "history"] := by decide +kernel
  have hshown : final.2.shown =
      [.notice "History cleared.", .notice "History is already empty."] := by decide +kernel
  have hstore : final.2.store.entries.map Prod.fst = [] := by decide +kernel
  have hstore' : final'.2.store.entries.map Prod.fst = ["history"] := by decide +kernel
  exact ⟨hbuffer, hwrites, hshown, hstore, hstore',
    observations_unchanged_by_failures _ .standard steps _ _⟩

end World

end DeskCalculator
