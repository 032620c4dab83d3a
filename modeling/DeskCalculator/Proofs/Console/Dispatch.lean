import DeskCalculator.Console.Dispatch
import DeskCalculator.Console.Program
import DeskCalculator.Proofs.Session.Refinement

/-!
# A terminal is answered as a session responds

What a line does to a calculator that shows a session, what it stores and what it prints is what the
session responds. So whoever converses with the program over a terminal reads what a run of the
program prints, and the same values are stored.
-/

namespace DeskCalculator

open History (Clock)

namespace World

variable {σ : Type}

private theorem printed_foldl_print (w : World σ) (texts : List String) :
    (texts.foldl print w).printed = w.printed ++ String.join texts := by
  induction texts generalizing w with
  | nil => simp
  | cons t texts ih =>
    rw [List.foldl_cons, ih]
    simp [printed, print, tell, Shown.printed, String.append_assoc]

/-- The lines of notices are printed in their order. -/
private theorem printed_foldl_notice (w : World σ) (notices : List String) :
    ((notices.map Shown.notice).foldl tell w).printed =
      w.printed ++ Console.noticeText notices := by
  induction notices generalizing w with
  | nil => simp [Console.noticeText]
  | cons n notices ih =>
    rw [List.map_cons, List.foldl_cons, ih]
    simp [printed, tell, Shown.printed, Console.noticeText, String.append_assoc]

variable [Store.Backing σ]

/-- Whether a world has become what a response asks for: what is to be stored has been stored as far
as that works, and what is to be printed has been printed. -/
structure Answered (w : World σ) (r : Console.Response) (w' : World σ) : Prop where
  store : w'.store = Desk.storeAll w.store r.writes fun n ↦ w.succeeds (w.writes.length + n)
  printed : w'.printed = w.printed ++ r.printed
  succeeds : w'.succeeds = w.succeeds
  lines : w'.lines = w.lines

/-- A response is answered by the writes and notices of its reply and the texts after them. -/
private theorem answered_foldl_print (w : World σ) {reply : Reply} {texts : List String}
    {r : Console.Response} (hwrites : r.writes = reply.writes)
    (hprinted : r.printed = Console.noticeText reply.notices ++ String.join texts) :
    w.Answered r (texts.foldl print (w.after reply)) where
  store := by rw [foldl_untouched print store fun _ _ ↦ rfl, store_after, hwrites]
  printed := by
    rw [printed_foldl_print, after, printed_foldl_notice,
      foldl_untouched afterWrite printed fun _ _ ↦ rfl, hprinted, String.append_assoc]
  succeeds := by rw [foldl_untouched print succeeds fun _ _ ↦ rfl, succeeds_after]
  lines := by
    rw [foldl_untouched print lines fun _ _ ↦ rfl, after, foldl_untouched tell lines fun _ _ ↦ rfl,
      foldl_untouched afterWrite lines fun _ _ ↦ rfl]

end World

namespace Console

open Calculator (ofSession perform)

variable {σ : Type} (s : Session)

private theorem run_typeWords (w : World σ) (words : List (List Char)) :
    w.run (typeWords words) (ofSession s) = (((), ofSession (words.foldl Session.type s)), w) := by
  induction words generalizing s with
  | nil => rfl
  | cons word words ih =>
    rw [typeWords, World.run_bind, Calculator.type_ofSession, ih]
    rfl

variable [Store.Backing σ]

/-! ### Showing -/

/-- The texts that make up what is shown of a session. -/
def stateTexts (s : Session) : List String :=
  match s.phase with
  | .failed e d => [errorLine e.message d.details, hintLine d.hint d.suggestion]
  | .executed => [line [String.ofList s.buffer], taxedLine s.lastOutcome]
  | .editing => [line [String.ofList s.buffer], previewLine s.buffer]

private theorem join_stateTexts : String.join (stateTexts s) = stateText s := by
  rw [stateTexts, stateText]
  cases s.phase <;> simp

private theorem run_showState (w : World σ) :
    w.run showState (ofSession s) = (((), ofSession s), (stateTexts s).foldl World.print w) := by
  rcases s with ⟨buffer, phase⟩
  cases phase <;> rfl

/-! ### Commands -/

/-- Whether an action on the calculator of a session does what a response says. -/
def Responds (act : Action (StateM (World σ)) Bool) (s : Session) (r : Response) : Prop :=
  ∀ w : World σ, ∃ w', w.run act (ofSession s) = ((r.goesOn, ofSession r.session), w') ∧
    w.Answered r w'

/-- An action responds if it performs as a reply says, then prints texts. -/
theorem Responds.of_run {act : Action (StateM (World σ)) Bool} {s : Session} {r : Response}
    (reply : Reply) (texts : List String)
    (hrun : ∀ w : World σ, w.run act (ofSession s) =
      ((r.goesOn, ofSession reply.session), texts.foldl World.print (w.after reply)))
    (hsession : r.session = reply.session) (hwrites : r.writes = reply.writes)
    (hprinted : r.printed = noticeText reply.notices ++ String.join texts) : Responds act s r :=
  fun w ↦ ⟨_, by rw [hrun, hsession], w.answered_foldl_print hwrites hprinted⟩

/-- The state is printed after what an action has printed. -/
theorem Responds.showing {α : Type} {act : Action (StateM (World σ)) α} {s : Session} (a : α)
    (reply : Reply) (texts : List String)
    (hrun : ∀ w : World σ, w.run act (ofSession s) =
      ((a, ofSession reply.session), texts.foldl World.print (w.after reply))) :
    Responds (do let _ ← act; showState; return true) s
      (Console.showing reply (String.join texts)) := by
  refine .of_run reply (texts ++ stateTexts reply.session) (fun w ↦ ?_) rfl rfl ?_
  · rw [World.run_bind, hrun, World.run_bind, run_showState, List.foldl_append]
    rfl
  · rw [String.join_append, join_stateTexts, ← String.append_assoc]
    rfl

private theorem responds_operate (now : Clock) (op : Operation) :
    Responds (σ := σ) (obey now (.operate op)) s (execute s now (.operate op)) :=
  .showing _ (s.perform now op) [] fun w ↦ Calculator.perform_ofSession w s now op

private theorem responds_keys (now : Clock) (words : List (List Char)) :
    Responds (σ := σ) (obey now (.keys words)) s (execute s now (.keys words)) :=
  .showing _ { session := words.foldl Session.type s } [] fun w ↦ run_typeWords s w words

private theorem responds_changeItem (now : Clock) (id : Option Int) (op : Int → Operation)
    (success : Int → String) :
    Responds (σ := σ) (do changeItem now id op success; showState; return true) s
      (onItem s now id op success) := by
  have hjoin (text : String) : String.join [text] = text := by simp
  cases id with
  | none =>
    rw [onItem, ← hjoin (line ["no such item"])]
    exact .showing _ { session := s } [line ["no such item"]] fun w ↦ rfl
  | some id =>
    let reply := s.perform now (op id)
    let text := if reply.found = some true then success id else line ["no such item"]
    have hresponse : onItem s now (some id) op success =
        Console.showing reply (String.join [text]) := by rw [hjoin, onItem]
    rw [hresponse]
    refine .showing () reply [text] fun w ↦ ?_
    rw [changeItem, World.run_bind, Calculator.perform_ofSession, World.run_print]
    rfl

/-- One text is printed after what a reply brings about. -/
theorem Responds.printing {act : Action (StateM (World σ)) Unit} {s : Session} (reply : Reply)
    (text : String) (hnotices : reply.notices = [])
    (hrun : ∀ w : World σ, w.run act (ofSession s) =
      (((), ofSession reply.session), (w.after reply).print text)) :
    Responds (do act; return true) s
      { session := reply.session, writes := reply.writes, printed := text } := by
  refine .of_run reply [text] (fun w ↦ ?_) rfl rfl ?_
  · rw [World.run_bind, hrun]
    rfl
  · simp [hnotices, noticeText]

private theorem responds_history (now : Clock) :
    Responds (σ := σ) (obey now .history) s (execute s now .history) :=
  .printing { session := s } _ rfl fun _ ↦ rfl

private theorem responds_tax (now : Clock) (arguments : List (List Char)) :
    Responds (σ := σ) (obey now (.tax arguments)) s (execute s now (.tax arguments)) := by
  have htax : (ofSession s).tax = s.tax := rfl
  rw [obey, execute, respondTax, changeTaxBy]
  split
  · exact .printing { session := s } _ rfl fun w ↦ rfl
  · cases hchange : changeTax s.tax arguments with
    | ok settings =>
      refine .printing (s.setTax settings) _ rfl fun w ↦ ?_
      rw [World.run_bind, World.run_get, htax, hchange]
      dsimp only
      rw [World.run_bind, Calculator.setTax_ofSession]
      rfl
    | error e =>
      refine .printing { session := s } _ rfl fun w ↦ ?_
      rw [World.run_bind, World.run_get, htax, hchange]
      rfl

private theorem responds_bound (now : Clock) (n : Option Nat) :
    Responds (σ := σ) (obey now (.bound n)) s (execute s now (.bound n)) := by
  cases n with
  | some n =>
    refine .printing (s.setBound n) _ rfl fun w ↦ ?_
    rw [changeBound, World.run_bind, Calculator.setBound_ofSession]
    rfl
  | none =>
    refine .of_run { session := s } (line ["usage: max <n>"] :: stateTexts s) (fun w ↦ ?_) rfl rfl
      ?_
    · rw [obey, World.run_bind, changeBound, World.run_bind, World.run_print, run_showState]
      rfl
    · rw [String.join_cons, join_stateTexts, ← String.append_assoc]
      rfl

/-- A calculator that shows a session does what a command asks for as the session does. -/
private theorem responds_obey (now : Clock) (command : Command) :
    Responds (σ := σ) (obey now command) s (execute s now command) := by
  cases command with
  | nothing => exact .of_run { session := s } [] (fun w ↦ rfl) rfl rfl rfl
  | quit => exact .of_run { session := s } [] (fun w ↦ rfl) rfl rfl rfl
  | operate op => exact responds_operate s now op
  | keys words => exact responds_keys s now words
  | history => exact responds_history s now
  | delete id => exact responds_changeItem s now id _ _
  | note id text => exact responds_changeItem s now id _ _
  | load id => exact responds_changeItem s now id _ _
  | tax arguments => exact responds_tax s now arguments
  | bound n => exact responds_bound s now n

/-- A line is answered as the session responds to it. -/
theorem responds_dispatch (now : Clock) (text : List Char) :
    Responds (σ := σ) (dispatch now text) s (respond s now text) :=
  responds_obey s now (.ofLine text)

/-! ### Conversations -/

/-- Lines with what the clock shows at each, the first one at the reading `clock n`. -/
def timed (clock : Nat → Clock) : Nat → List (Option (List Char)) →
    List (Clock × Option (List Char))
  | _, [] => []
  | n, text :: rest => (clock n, text) :: timed clock (n + 1) rest

/-- Whether a world has become what a run of the program leaves: a calculator that shows the session
of a desk, the store of the desk, and a printed text. -/
structure Leaves (w : World Store.File) (c : Calculator) (d : Desk Store.File) (text : String) :
    Prop where
  calculator : c = ofSession d.session
  store : w.store = d.store
  printed : w.printed = text

/-- Lines are answered as a run of the program answers them, if all writes succeed. -/
theorem serve_ofSession {clock : Nat → Clock} {k n : Nat} {texts : List (Option (List Char))}
    (hlength : texts.length ≤ n) {w : World Store.File} (hsucceeds : ∀ i, w.succeeds i)
    (hlines : w.lines = timed clock k texts) (s : Session) :
    let served := w.run (serve n) (ofSession s)
    let answered := answerAll clock k ⟨s, w.store⟩ texts
    Leaves served.2 served.1.2 answered.1 (w.printed ++ answered.2) := by
  induction texts generalizing w s k n with
  | nil =>
    have hnone : w.lines.head? = none := by rw [hlines]; rfl
    cases n with
    | zero => exact ⟨rfl, rfl, String.append_empty.symm⟩
    | succ n =>
      rw [serve, World.run_bind, World.run_nextLine, hnone]
      exact ⟨rfl, rfl, String.append_empty.symm⟩
  | cons text texts ih =>
    obtain ⟨n, rfl⟩ := Nat.exists_eq_add_one_of_ne_zero (Nat.ne_zero_of_lt hlength)
    have hsome : w.lines.head? = some (clock k, text) := by rw [hlines]; rfl
    rw [serve, World.run_bind, World.run_nextLine, hsome]
    cases text with
    | none => exact ⟨rfl, rfl, String.append_empty.symm⟩
    | some text =>
      obtain ⟨w', hrun, hanswered⟩ := responds_dispatch s (clock k) text w.afterLine
      have hstore : w'.store =
          Desk.storeAll w.store (respond s (clock k) text).writes fun _ ↦ true := by
        rw [hanswered.store]
        exact congrArg _ (funext fun i ↦ hsucceeds _)
      dsimp only
      rw [World.run_bind, hrun, answerAll, answer]
      dsimp only
      cases (respond s (clock k) text).goesOn with
      | true =>
        have hrest : w'.lines = timed clock (k + 1) texts := by
          rw [hanswered.lines]
          exact congrArg List.tail hlines
        have hserved := ih (Nat.le_of_succ_le_succ hlength) (by rwa [hanswered.succeeds]) hrest
          (respond s (clock k) text).session
        dsimp only at hserved
        rw [hstore, hanswered.printed, String.append_assoc] at hserved
        exact hserved
      | false => exact ⟨rfl, hstore, hanswered.printed⟩

/-- Whoever converses with the program over a terminal whose writes succeed reads what a run of the
program prints, and the store is that of the run. -/
theorem converse_eq_run (environment : Settings.Environment) (files : String → Store.Contents)
    (clock : Nat → Clock) (input : List UInt8) {n : Nat} (hlength : (lines input).length ≤ n) :
    let t := run environment files clock input
    let config := (usedConfig (Settings.Config.load (files environment.configPath) true).2).1
    let w : World Store.File := {
      store := .load (files t.storePath)
      succeeds := fun _ ↦ true
      lines := timed clock 0 (lines input) }
    let w' := ((converse config.defaults n : StateM (World Store.File) Unit) w).2
    w'.printed = t.printed ∧ w'.store = t.desk.store := by
  intro t config w w'
  let start := Session.restore (Store.Backing.entries w.store) config.defaults
  let shown := (stateTexts start).foldl World.print w
  have hsucceeds : shown.succeeds = w.succeeds :=
    World.foldl_untouched World.print _ (fun _ _ ↦ rfl) ..
  have hlines : shown.lines = w.lines := World.foldl_untouched World.print _ (fun _ _ ↦ rfl) ..
  have hstore : shown.store = w.store := World.foldl_untouched World.print _ (fun _ _ ↦ rfl) ..
  have hprinted : shown.printed = stateText start := by
    rw [World.printed_foldl_print, join_stateTexts]
    exact String.empty_append
  have hrun : w' = (shown.run (serve n) (ofSession start)).2 := by
    have hshow : w' = (w.run (do showState; serve n) (ofSession start)).2 := rfl
    rw [hshow, World.run_bind, run_showState]
  have hserved := serve_ofSession hlength (fun i ↦ by rw [hsucceeds]) hlines start
  rw [hstore, hprinted] at hserved
  rw [hrun]
  exact ⟨hserved.printed, hserved.store⟩

end Console

end DeskCalculator
