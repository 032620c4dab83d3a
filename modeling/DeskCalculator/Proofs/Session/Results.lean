import DeskCalculator.Proofs.Diagnosis.Repair
import DeskCalculator.Proofs.Display.Meaning
import DeskCalculator.Proofs.Display.Numerals
import DeskCalculator.Proofs.Number.FixedPoint
import DeskCalculator.Proofs.Session.Calculation
import DeskCalculator.Proofs.Session.Coherence

/-!
# Results are fixed points

A result that is shown is an expression: its text is a number, perhaps with a minus sign. Its value
need not be the number that was shown, but it is shown the same way. So the preview of a result is
the result, and calculating it once more changes nothing on the display.
-/

namespace DeskCalculator

open Expression (compute numeralValue)
open History (Clock)
open Number (displayText)

namespace Display

/-- The text of a finite number has a value with the same text. -/
theorem exists_compute_displayText {x : Float} (h : x.isFinite) :
    ∃ y, compute (displayText x) = .ok y ∧ displayText y = displayText x := by
  obtain ⟨hfinite, hsign, hsame⟩ := Number.numeralValue_shownDecimal h
  have hcompute := compute_signText (fun _ ↦ Number.isLiteralChar_of_mem_shownMagnitude)
    (Number.exists_digit_mem_shownMagnitude _)
    (Number.count_point_shownMagnitude_le (Number.shownDecimal x))
  have htext := Number.displayText_eq h
  generalize numeralValue (Number.shownMagnitude (Number.shownDecimal x)) = y at *
  cases hnegative : Number.isNegative x && Number.shownDecimal x != 0 with
  | false =>
    rw [hnegative] at htext
    refine ⟨y, ?_, ?_⟩
    · rw [htext, hcompute false, if_neg (by decide), Expression.finite, if_pos hfinite]
      rfl
    · rw [htext, Number.displayText_eq hfinite, hsign, hsame, Bool.false_and]
  | true =>
    have hneg : (-y).isFinite := (Number.isFinite_neg y).trans hfinite
    have hnonzero : (Number.shownDecimal x != 0) = true := (Bool.and_eq_true_iff.mp hnegative).2
    rw [hnegative] at htext
    refine ⟨-y, ?_, ?_⟩
    · rw [htext, hcompute true, if_pos rfl, Expression.finite, if_pos hneg]
      rfl
    · rw [htext, Number.displayText_eq hneg, Number.isNegative_neg hfinite, hsign,
        Number.shownDecimal_neg hfinite, hsame, hnonzero]
      rfl

private theorem displayText_ne_nil {x : Float} (h : x.isFinite) : displayText x ≠ [] := by
  obtain ⟨c, hc, -⟩ := Number.exists_digit_mem_shownMagnitude (Number.shownDecimal x)
  rw [Number.displayText_eq h]
  exact List.append_ne_nil_of_right_ne_nil _ (List.ne_nil_of_mem hc)

/-- The text of a finite number has no blanks. -/
private theorem isBlank_of_mem_displayText {x : Float} (h : x.isFinite) {c : Char}
    (hc : c ∈ displayText x) : Text.isBlank c = false := by
  rw [Number.displayText_eq h, List.mem_append] at hc
  rcases hc with hsign | hrun
  · rcases Number.signText_cases (Number.isNegative x && Number.shownDecimal x != 0)
      with hnone | hminus
    · rw [hnone] at hsign
      cases hsign
    · rw [hminus] at hsign
      obtain rfl := List.mem_singleton.mp hsign
      rfl
  · have hliteral := Number.isLiteralChar_of_mem_shownMagnitude hrun
    rw [← Bool.not_eq_true]
    intro hblank
    rw [isLiteralChar_of_isBlank hblank] at hliteral
    cases hliteral

end Display

/-- A text without blanks has none around it. -/
private theorem Text.trim_eq_self {cs : List Char} (h : ∀ c ∈ cs, isBlank c = false) :
    trim cs = cs := by
  have hleft : trimLeft cs = cs := by
    cases cs with
    | nil => rfl
    | cons c cs => rw [trimLeft, List.dropWhile_cons, h c (by simp), if_neg (by decide)]
  rw [trim, hleft]
  exact Diagnosis.trimRight_eq_self fun c hc ↦ h c (List.mem_of_getLast? hc)

namespace Session

/-! ### Sessions that show a result -/

/-- A result that is shown is the text of a finite number. -/
def ShowsFinite (s : Session) : Prop :=
  s.phase = .executed → ∃ x : Float, x.isFinite ∧ s.buffer = displayText x

variable {s t : Session}

theorem ShowsFinite.of_starts (h : s.Starts) : s.ShowsFinite := by
  intro hexecuted
  cases h with
  | fresh defaults lastAnswer => cases hexecuted
  | restore entries defaults => cases hexecuted

/-- Only calculations show results, and their values are finite. -/
theorem ShowsFinite.calculate (h : s.ShowsFinite) (now : Clock) :
    (s.calculate now).session.ShowsFinite := by
  by_cases hidle : s.Idle
  · rwa [calculate_of_idle hidle]
  · cases hvalue : compute s.buffer with
    | ok x =>
      rw [calculate_of_value hidle hvalue]
      exact fun _ ↦ ⟨x, Display.isFinite_of_compute hvalue, rfl⟩
    | error e =>
      rw [calculate_of_error hidle hvalue]
      intro hexecuted
      cases hexecuted

theorem ShowsFinite.perform (h : s.ShowsFinite) (now : Clock) (op : Operation) :
    (s.perform now op).session.ShowsFinite := by
  by_cases hop : op = .calculate
  · rw [hop]
    exact h.calculate now
  · intro hexecuted
    rcases s.editing_or_showsSame_perform now hop with hediting | hsame
    · rw [hediting] at hexecuted
      cases hexecuted
    · rw [hsame.buffer]
      exact h (hsame.phase ▸ hexecuted)

theorem ShowsFinite.run (h : s.ShowsFinite) (steps : List (Clock × Operation)) :
    (s.run steps).ShowsFinite :=
  run_induction h fun step _ _ hs ↦ hs.perform step.1 step.2

private theorem edit_buffer (s : Session) (b : List Char) : (s.edit b).buffer = b := rfl

/-- The last answer is typed as it is where a result is shown. -/
private theorem typeAnswer_of_executed (h : s.Coherent) (hexecuted : s.phase = .executed) :
    s.typeAnswer = s.edit s.buffer := by
  rw [typeAnswer, (h.executed hexecuted).1]
  simp only [press, hexecuted]
  rfl

/-- A text without blanks is entered as it is. -/
private theorem enter_eq_edit (t : Session) {b : List Char} (hne : b ≠ [])
    (h : ∀ c ∈ b, Text.isBlank c = false) : t.enter b = t.edit b := by
  rw [enter, Text.trim_eq_self h]
  simp [hne]

/-- A result that is brought back is shown again once it is calculated. -/
private theorem calculate_of_displayText {x : Float} (hx : x.isFinite)
    (hbuffer : t.buffer = displayText x) (now : Clock) :
    (t.calculate now).session.buffer = t.buffer ∧
      (¬ t.Idle → (t.calculate now).session.phase = .executed) := by
  by_cases hidle : t.Idle
  · rw [calculate_of_idle hidle]
    exact ⟨rfl, fun h ↦ absurd hidle h⟩
  · obtain ⟨y, hcompute, htext⟩ := Display.exists_compute_displayText hx
    rw [← hbuffer] at hcompute htext
    rw [calculate_of_value hidle hcompute]
    exact ⟨htext, fun _ ↦ rfl⟩

/-- The text of every finite number is an expression whose value has the same text. So the preview
of a result that is shown is the result itself. Typed as the last answer or entered as a text it
comes back as it is, and calculating it, wherever it has come from, shows the same text again as
a result, unless there is nothing to calculate. -/
theorem results_are_fixed_points :
    (∀ x : Float, x.isFinite →
      ∃ y, compute (displayText x) = .ok y ∧ displayText y = displayText x) ∧
    ∀ (start : Session) (steps : List (Clock × Operation)), start.Starts →
      let s := start.run steps
      s.isExecuted →
        s.preview = some s.buffer ∧ s.typeAnswer = s.edit s.buffer ∧
        ∀ t : Session, t.enter s.buffer = t.edit s.buffer ∧
          (t.buffer = s.buffer → ∀ now : Clock,
            (t.calculate now).session.buffer = s.buffer ∧
            (¬ t.Idle → (t.calculate now).session.phase = .executed)) := by
  constructor
  · exact fun _ ↦ Display.exists_compute_displayText
  · intro start steps hstart s hexecuted
    have hphase : s.phase = .executed := of_decide_eq_true hexecuted
    have hcoherent : s.Coherent := (Coherent.of_starts hstart).run steps
    have hfinite : s.ShowsFinite := (ShowsFinite.of_starts hstart).run steps
    clear_value s
    obtain ⟨x, hx, hbuffer⟩ := hfinite hphase
    obtain ⟨y, hcompute, htext⟩ := Display.exists_compute_displayText hx
    rw [← hbuffer] at hcompute htext
    refine ⟨?_, typeAnswer_of_executed hcoherent hphase, fun t ↦ ⟨?_, fun ht now ↦ ?_⟩⟩
    · rw [preview, Buffer.preview, hcompute]
      exact congrArg some htext
    · rw [hbuffer]
      exact enter_eq_edit t (Display.displayText_ne_nil hx) fun _ ↦
        Display.isBlank_of_mem_displayText hx
    · rw [← ht]
      exact calculate_of_displayText hx (ht.trans hbuffer) now

/-- Two thirds have no finite decimal, so what is shown is not the value. It is typed again as an
answer and calculated. -/
theorem result_of_third_again :
    let x : Float := -2 / 3
    let now : Clock := ⟨7, 2024, 2, 29, 23, 59⟩
    let start := fresh .standard none
    let steps := List.map (Prod.mk now) [.enter "-2÷3".toList, .calculate]
    let s := start.run steps
    x.isFinite ∧ displayText x = "-0.6666666667".toList ∧
      (∃ y, compute (displayText x) = .ok y ∧ displayText y = displayText x) ∧
      start.Starts ∧ s.isExecuted ∧ s.buffer = "-0.6666666667".toList ∧
      s.preview = some "-0.6666666667".toList ∧
      s.typeAnswer.buffer = s.buffer ∧ ¬ s.typeAnswer.Idle ∧
      (s.typeAnswer.calculate now).session.buffer = s.buffer ∧
      (s.typeAnswer.calculate now).session.phase = .executed := by
  intro x now start steps s
  have hx : x.isFinite := by decide +kernel
  have hshows : displayText x = "-0.6666666667".toList := by decide +kernel
  have hstart : start.Starts := .fresh .standard none
  have hexecuted : s.isExecuted := by decide +kernel
  have hbuffer : s.buffer = "-0.6666666667".toList := by decide +kernel
  obtain ⟨hfixed, hresults⟩ := results_are_fixed_points
  obtain ⟨hpreview, hanswer, hagain⟩ := hresults start steps hstart hexecuted
  have htyped : s.typeAnswer.buffer = s.buffer := by rw [hanswer, edit_buffer]
  have hidle : ¬ s.typeAnswer.Idle := by
    rintro (hphase | hzero)
    · rw [hanswer] at hphase
      cases hphase
    · rw [htyped, hbuffer] at hzero
      cases hzero
  obtain ⟨htext, hshown⟩ := (hagain s.typeAnswer).2 htyped now
  exact ⟨hx, hshows, hfixed x hx, hstart, hexecuted, hbuffer,
    hpreview.trans (congrArg some hbuffer), htyped, hidle, htext, hshown hidle⟩

end Session

end DeskCalculator
