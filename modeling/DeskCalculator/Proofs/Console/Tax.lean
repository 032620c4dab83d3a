import DeskCalculator.Console.Program
import DeskCalculator.Proofs.Session.Restart
import Mathlib.Data.List.Basic

/-!
# The tax settings after a restart

The tax settings change only by a line that begins with `tax`, and are then stored. A rate that a
line spells is finite, but a mode without a rate leaves the rate as it is. So a rate that is not
finite can only be the one that is configured. It is lost when it is stored, and a restart finds the
configured settings then in place of those of the session.
-/

namespace DeskCalculator.Console

open History (Clock)
open Store (loadOr put)

/-! ### What a line does -/

/-- What a line brings about for the tax settings. -/
inductive TaxEffect (s : Session) (r : Response) : Prop where
  /-- They are neither changed nor stored. -/
  | kept (tax : r.session.tax = s.tax) (writes : ∀ w ∈ r.writes, w.1 ≠ Store.taxKey)
  /-- They are changed as the words after `tax` say, and stored. -/
  | set (arguments : List (List Char)) (change : changeTax s.tax arguments = .ok r.session.tax)
      (writes : r.writes = [Store.write Store.taxKey r.session.tax.toJson])

/-- Words that are typed as keys keep the tax settings. -/
private theorem kept_foldl_type (s : Session) (words : List (List Char)) :
    (words.foldl Session.type s).kept = s.kept := by
  induction words generalizing s with
  | nil => rfl
  | cons word words ih => rw [List.foldl_cons, ih, s.kept_type]

section

variable {s : Session} {now : Clock}

/-- An operation that does not set the tax settings keeps them. -/
theorem TaxEffect.of_effect {op : Operation} {reply : Reply} (h : s.Effect now op reply)
    (hop : ∀ settings, op ≠ .setTax settings) {r : Response} (hsession : r.session = reply.session)
    (hwrites : r.writes = reply.writes) : TaxEffect s r := by
  have htax {k : Kept} (hkept : reply.session.kept = k) : r.session.tax = k.tax := by
    rw [hsession, ← hkept]
    rfl
  cases h with
  | nothing hkept hnone =>
    refine .kept (htax hkept) ?_
    rw [hwrites, hnone]
    simp
  | items items horigin hkept hitems =>
    refine .kept (htax hkept) ?_
    rw [hwrites, hitems]
    simp [Store.write, Store.historyKey, Store.taxKey]
  | evicts n hn hevicted hkept hboth =>
    refine .kept (htax hkept) ?_
    rw [hwrites, hboth]
    simp [Store.write, Store.boundKey, Store.historyKey, Store.taxKey]
  | bound n hn hroom hkept hbound =>
    refine .kept (htax hkept) ?_
    rw [hwrites, hbound]
    simp [Store.write, Store.boundKey, Store.taxKey]
  | tax settings heq => exact absurd heq (hop settings)
  | layout layout hkept hlayout =>
    refine .kept (htax hkept) ?_
    rw [hwrites, hlayout]
    simp [Store.write, Store.layoutKey, Store.taxKey]

/-- What is shown does not matter. -/
theorem TaxEffect.of_showing {op : Operation} (hop : ∀ settings, op ≠ .setTax settings)
    (printed : String) : TaxEffect s (showing (s.perform now op) printed) :=
  .of_effect (s.effect_perform now op) hop rfl rfl

private theorem taxEffect_onItem (id : Option Int) {op : Int → Operation}
    (hop : ∀ id settings, op id ≠ .setTax settings) (success : Int → String) :
    TaxEffect s (onItem s now id op success) := by
  cases id with
  | none => exact .kept rfl (by simp [onItem, showing])
  | some id => exact .of_showing (hop id) _

private theorem taxEffect_respondTax (arguments : List (List Char)) :
    TaxEffect s (respondTax s arguments) := by
  unfold respondTax
  split
  · exact .kept rfl (by simp)
  · split
    · next settings hchange => exact .set arguments hchange rfl
    · exact .kept rfl (by simp)

/-- A command keeps the tax settings or changes them as the words after `tax` say. -/
private theorem taxEffect_execute {command : Command}
    (hcommand : ∀ settings, command ≠ .operate (.setTax settings)) :
    TaxEffect s (execute s now command) := by
  cases command with
  | nothing => exact .kept rfl (by simp [execute])
  | quit => exact .kept rfl (by simp [execute])
  | operate op => exact .of_showing (fun settings heq ↦ hcommand settings (by rw [heq])) ""
  | keys words =>
    have htax := congrArg Kept.tax (kept_foldl_type s words)
    exact .kept htax (by simp [execute, showing])
  | history => exact .kept rfl (by simp [execute])
  | delete id => exact taxEffect_onItem id (by simp) _
  | note id text => exact taxEffect_onItem id (by simp) _
  | load id => exact taxEffect_onItem id (by simp) _
  | tax arguments => exact taxEffect_respondTax arguments
  | bound n =>
    cases n with
    | none => exact .kept rfl (by simp [execute, respondBound, showing])
    | some n => exact .of_effect (s.effect_setBound now n) (by simp) rfl rfl

/-- No command for an operation gives tax settings. -/
private theorem ofLine_ne_setTax (text : List Char) (settings : Tax.Settings) :
    Command.ofLine text ≠ .operate (.setTax settings) := by
  have hplain (command : String) : plainOperation? command ≠ some (.setTax settings) := by
    unfold plainOperation?
    split <;> simp
  rw [Command.ofLine]
  cases Text.words text with
  | nil => simp [Command.ofWords]
  | cons word arguments =>
    rw [Command.ofWords]
    split
    · next op hop =>
      intro heq
      cases heq
      exact hplain _ hop
    · split <;> simp

end

private theorem taxEffect_respond (s : Session) (now : Clock) (text : List Char) :
    TaxEffect s (respond s now text) :=
  taxEffect_execute (ofLine_ne_setTax text)

/-! ### What is stored -/

/-- A rate that a word spells is finite. -/
private theorem isFinite_of_readRate? {word : List Char} {rate : Float}
    (h : readRate? word = some rate) : rate.isFinite := by
  unfold readRate? at h
  split at h
  · split at h
    · next hfinite =>
      cases h
      exact hfinite
    · cases h
  · cases h

/-- A rate that is not finite is the one that was there before. -/
private theorem rate_of_changeTax {current settings : Tax.Settings} {arguments : List (List Char)}
    (h : changeTax current arguments = .ok settings) :
    settings.rate = current.rate ∨ settings.rate.isFinite := by
  unfold changeTax at h
  dsimp only at h
  split at h
  · split at h
    · cases h
      exact .inl rfl
    · split at h
      · cases h
        exact .inl rfl
      · cases h
  · split at h
    · split at h
      · next hrate =>
        cases h
        exact .inr (isFinite_of_readRate? hrate)
      · cases h
    · cases h
  · cases h

/-- The tax settings of a session and what is read of them from its store: they are read back if
their rate is finite, and otherwise the defaults stand for them. A rate that is not finite is the
default one. -/
structure TaxRecorded (d : Desk Store.File) (defaults : Defaults) : Prop where
  stored : loadOr (Store.Backing.entries d.store) Store.taxKey Tax.Settings.ofJson? defaults.tax =
    if d.session.tax.rate.isFinite then d.session.tax else defaults.tax
  rate : defaults.tax.rate.isFinite → d.session.tax.rate.isFinite

namespace TaxRecorded

variable {d : Desk Store.File} {defaults : Defaults}

/-- On an empty store a session has the default settings. -/
theorem restore {store : Store.File} (hempty : Store.Backing.entries store = []) :
    TaxRecorded (Desk.restore store defaults) defaults := by
  have htax : (Desk.restore store defaults).session.tax = defaults.tax := by
    change loadOr (Store.Backing.entries store) _ _ _ = defaults.tax
    rw [hempty]
    rfl
  constructor
  · rw [htax, ite_self]
    exact htax
  · rw [htax]
    exact id

/-- Every line keeps what is stored and what the session has together. -/
theorem answer (h : TaxRecorded d defaults) (now : Clock) (text : List Char) :
    TaxRecorded (Console.answer d now (fun _ ↦ true) text).1 defaults := by
  have hentries : Store.Backing.entries (Console.answer d now (fun _ ↦ true) text).1.store =
      (respond d.session now text).writes.foldl put (Store.Backing.entries d.store) :=
    Desk.entries_storeAll _ _
  have hsession : (Console.answer d now (fun _ ↦ true) text).1.session =
      (respond d.session now text).session := rfl
  cases taxEffect_respond d.session now text with
  | kept htax hwrites =>
    constructor
    · rw [hentries, hsession, htax, Store.loadOr_foldl_put_of_ne hwrites]
      exact h.stored
    · rw [hsession, htax]
      exact h.rate
  | set arguments hchange hwrites =>
    constructor
    · rw [hentries, hsession, hwrites, List.foldl_cons, List.foldl_nil]
      split
      · next hfinite =>
        exact Store.loadOr_put_self (Tax.Settings.ofJson?_sorted_toJson hfinite) defaults.tax
      · next hlost =>
        have hread := Tax.Settings.ofJson?_sorted_toJson_eq_none hlost
        exact Store.loadOr_put_unreadable hread defaults.tax
    · intro hdefault
      rw [hsession]
      rcases rate_of_changeTax hchange with hsame | hfinite
      · rw [hsame]
        exact h.rate hdefault
      · exact hfinite

/-- So do all lines of a run. -/
theorem answerAll (h : TaxRecorded d defaults) (clock : Nat → Clock) (n : Nat)
    (lines : List (Option (List Char))) :
    TaxRecorded (Console.answerAll clock n d lines).1 defaults := by
  induction lines generalizing n d with
  | nil => exact h
  | cons line lines ih =>
    cases line with
    | none => exact h
    | some text =>
      have hanswer := h.answer (clock n) text
      rw [Console.answerAll]
      dsimp only
      split
      · exact ih hanswer (n + 1)
      · exact hanswer

end TaxRecorded

/-- If a session starts on an empty store and every value can be stored, then after every sequence
of lines a session that is restored from the store with the same defaults has the tax settings of
the live one, unless their rate is not finite: then it has the default ones. With a finite default
rate that does not happen. -/
theorem tax_restart {store : Store.File} (hempty : Store.Backing.entries store = [])
    (defaults : Defaults) (clock : Nat → Clock) (n : Nat) (lines : List (Option (List Char))) :
    let d := (answerAll clock n (Desk.restore store defaults) lines).1
    let restarted := Desk.restore d.store defaults
    restarted.session.tax = (if d.session.tax.rate.isFinite then d.session.tax else defaults.tax) ∧
      (defaults.tax.rate.isFinite → restarted.session.tax = d.session.tax) := by
  intro d restarted
  have hstart : TaxRecorded (Desk.restore store defaults) defaults := .restore hempty
  have hrecorded := hstart.answerAll clock n lines
  have hrestarted : restarted.session.tax =
      if d.session.tax.rate.isFinite then d.session.tax else defaults.tax := hrecorded.stored
  refine ⟨hrestarted, fun hdefault ↦ ?_⟩
  rw [hrestarted, if_pos (hrecorded.rate hdefault)]

/-- The configured rate is infinite, but the first line replaces it by a finite one. Later lines
switch the tax off, store the bound and choose another mode. -/
theorem tax_restart_with_own_rate :
    let defaults : Defaults :=
      { Defaults.standard with tax := { Tax.Settings.standard with rate := 1 / 0 } }
    let lines : List (Option (List Char)) :=
      ["tax extract-custom 7.5", "1÷4", "=", "tax off", "max 1", "tax custom"].map
        fun line ↦ some line.toList
    let store := Store.File.load .missing
    let clock : Nat → Clock := fun n ↦ ⟨n, 2024, 2, 29, 23, 59⟩
    let d := (answerAll clock 0 (Desk.restore store defaults) lines).1
    Store.Backing.entries store = [] ∧ d.session.tax = ⟨true, .custom, 7.5, false⟩ ∧
      (Desk.restore d.store defaults).session.tax = d.session.tax := by
  intro defaults lines store clock d
  have hempty : Store.Backing.entries store = [] := rfl
  have htax : d.session.tax = ⟨true, .custom, 7.5, false⟩ := by decide +kernel
  have hrestart := tax_restart hempty defaults clock 0 lines
  dsimp only at hrestart
  refine ⟨hempty, htax, ?_⟩
  rw [hrestart.1, htax]
  exact if_pos (by decide +kernel)

/-- A configuration with an infinite rate is accepted. A line takes the rate over with a mode, and a
restart loses both. -/
theorem tax_lost_at_restart :
    let file := Store.Contents.text "[calculator.default_tax]\nrate = inf\n".toList
    ∃ config, Settings.Config.load file true = (file, .ok config) ∧
      let start := Desk.restore (Store.File.load .missing) config.defaults
      let d := (answer start ⟨5, 2024, 2, 29, 23, 59⟩ (fun _ ↦ true) "tax custom".toList).1
      d.session.tax.isEnabled ∧ d.session.tax.mode = .custom ∧
        (Desk.restore d.store config.defaults).session.tax = config.defaults.tax ∧
        (Desk.restore d.store config.defaults).session.tax ≠ d.session.tax := by
  let tax : Tax.Settings := { Tax.Settings.standard with rate := 1 / 0 }
  refine ⟨{ Settings.Config.standard with defaults := { Defaults.standard with tax } }, ?_, ?_⟩
  · decide +kernel
  · decide +kernel

end DeskCalculator.Console
