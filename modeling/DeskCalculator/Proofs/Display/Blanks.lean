import DeskCalculator.Proofs.Diagnosis.Problems

/-!
# Spaces and tabs between tokens

Spaces and tabs can be put into an expression wherever they separate no number and no percent sign
from a number. The evaluator's text then has them at places where they separate no number either,
and so it has the same lexemes. One place is different: a plus sign that means nothing stands at the
very beginning or right after an opening parenthesis, and with a blank before it the evaluator finds
a sign where an operand is due.
-/

namespace DeskCalculator.Display

open Diagnosis (solid?)
open Expression (EndsRun compute evaluate isGap isLiteralChar plain)
open Text (isBlank)

/-! ### Places -/

/-- `Spaced P prev cs ds` says that `ds` is `cs` with spaces and tabs put in, `prev` being the
character before both. `P` says between which neighbours in `cs` they may stand; `none` is the
beginning or the end. -/
inductive Spaced (P : Option Char → Option Char → Prop) :
    (prev : Option Char) → List Char → List Char → Prop where
  | nil {prev : Option Char} : Spaced P prev [] []
  | keep {prev : Option Char} {c : Char} {cs ds : List Char} (h : Spaced P (some c) cs ds) :
      Spaced P prev (c :: cs) (c :: ds)
  | blank {prev : Option Char} {g : Char} {cs ds : List Char} (gap : isGap g)
      (allowed : P prev cs.head?) (h : Spaced P prev cs ds) : Spaced P prev cs (g :: ds)

/-- A place where a number does not go on. -/
def ApartFromNumbers (prev next : Option Char) : Prop :=
  prev.any isLiteralChar → next.all fun d ↦ !isLiteralChar d

/-- Whether the evaluator's text of a character ends with a digit or a point. -/
def endsLiteral (c : Char) : Bool :=
  isLiteralChar c || c == '%'

/-- A place between tokens: not inside a number, and not between a percent sign and a number. -/
def BetweenTokens (prev next : Option Char) : Prop :=
  prev.any endsLiteral → next.all fun d ↦ !isLiteralChar d

/-- The place before a plus sign that means nothing. -/
def BeforeLeadingPlus (prev next : Option Char) : Prop :=
  isFresh prev ∧ next = some '+'

/-- A place between tokens where a blank changes nothing. -/
def HarmlessPlace (prev next : Option Char) : Prop :=
  BetweenTokens prev next ∧ ¬ BeforeLeadingPlus prev next

instance (prev next : Option Char) : Decidable (BetweenTokens prev next) :=
  inferInstanceAs (Decidable (_ → _))

instance (prev next : Option Char) : Decidable (BeforeLeadingPlus prev next) :=
  inferInstanceAs (Decidable (_ ∧ _))

instance (prev next : Option Char) : Decidable (HarmlessPlace prev next) :=
  inferInstanceAs (Decidable (_ ∧ _))

/-- Where a number can go on a plus sign means something. -/
theorem isFresh_of_endsLiteral {prev : Option Char} (h : prev.any endsLiteral) :
    isFresh prev = false := by
  cases prev with
  | none => cases h
  | some c =>
    rw [isFresh, Option.all_some, beq_eq_false_iff_ne]
    rintro rfl
    cases h

/-- After a space or a tab a plus sign means something. -/
private theorem isFresh_of_isGap {g : Char} (h : isGap g) : isFresh (some g) = false := by
  rw [isFresh, Option.all_some, beq_eq_false_iff_ne]
  rintro rfl
  cases h

/-- Where no number goes on there is no digit and no point, if there is anything. -/
theorem endsRun_iff {cs : List Char} : EndsRun cs ↔ cs.head?.all fun d ↦ !isLiteralChar d := by
  cases cs with
  | nil => simp [EndsRun]
  | cons c cs => simp [EndsRun]

namespace Spaced

variable {P : Option Char → Option Char → Prop} {prev : Option Char} {c : Char}
  {cs ds run : List Char}

private theorem mono {Q : Option Char → Option Char → Prop} (hPQ : ∀ p d, P p d → Q p d)
    (h : Spaced P prev cs ds) : Spaced Q prev cs ds := by
  induction h with
  | nil => exact .nil
  | keep h ih => exact .keep ih
  | blank gap allowed h ih => exact .blank gap (hPQ _ _ allowed) ih

/-- Before a character that is kept there are only the blanks that are put in. -/
theorem exists_of_cons (h : Spaced P prev (c :: cs) ds) :
    ∃ gs rest, ds = gs ++ c :: rest ∧ (∀ g ∈ gs, isGap g) ∧ Spaced P (some c) cs rest := by
  generalize hall : c :: cs = all at h
  induction h with
  | nil => cases hall
  | keep h =>
    cases hall
    exact ⟨[], _, rfl, by simp, h⟩
  | @blank prev g all ds gap allowed h ih =>
    obtain ⟨gs, rest, rfl, hgs, hrest⟩ := ih hall
    exact ⟨g :: gs, rest, rfl, List.forall_mem_cons.mpr ⟨gap, hgs⟩, hrest⟩

/-- At the end of a text there are only the blanks that are put in. -/
private theorem isGap_of_nil (h : Spaced P prev [] ds) : ∀ g ∈ ds, isGap g := by
  generalize hall : [] = all at h
  induction h with
  | nil => simp
  | keep h => cases hall
  | blank gap allowed h ih => exact List.forall_mem_cons.mpr ⟨gap, ih hall⟩

/-- No number goes on where none did before. -/
theorem endsRun (h : Spaced P prev cs ds) (hcs : EndsRun cs) : EndsRun ds := by
  intro d hd
  cases h with
  | nil => exact hcs d hd
  | keep h => exact hcs d hd
  | blank gap allowed h =>
    cases hd
    exact Expression.isLiteralChar_of_isGap gap

/-- A run of digits and points that has begun is kept together. -/
private theorem exists_of_run (hrun : ∀ c ∈ run, isLiteralChar c)
    (h : Spaced ApartFromNumbers prev (run ++ cs) ds) (hprev : prev.any isLiteralChar) :
    ∃ prev' rest, ds = run ++ rest ∧ Spaced ApartFromNumbers prev' cs rest := by
  induction run generalizing prev ds with
  | nil => exact ⟨prev, ds, rfl, h⟩
  | cons c run ih =>
    obtain ⟨hc, hrun⟩ := List.forall_mem_cons.mp hrun
    cases h with
    | keep h =>
      obtain ⟨prev', rest, rfl, hrest⟩ := ih hrun h hc
      exact ⟨prev', rest, rfl, hrest⟩
    | blank gap allowed h =>
      have hend : (!isLiteralChar c) = true := allowed hprev
      rw [hc] at hend
      cases hend

end Spaced

/-! ### Lexemes -/

/-- Spaces and tabs before a text are no lexemes. -/
theorem lexes_gaps_append_iff {gs cs : List Char} (hgs : ∀ g ∈ gs, isGap g)
    {ls : List Expression.Lexeme} : Expression.Lexes (gs ++ cs) ls ↔ Expression.Lexes cs ls := by
  refine ⟨lexes_of_blanks fun g hg ↦ isBlank_of_isGap (hgs g hg), fun h ↦ ?_⟩
  induction gs with
  | nil => exact h
  | cons g gs ih =>
    obtain ⟨hg, hgs⟩ := List.forall_mem_cons.mp hgs
    exact .gap hg (ih hgs)

/-- A text in which no number is separated keeps its lexemes. -/
private theorem Spaced.lexes_iff {prev : Option Char} {cs ds : List Char}
    (h : Spaced ApartFromNumbers prev cs ds) {ls : List Expression.Lexeme} :
    Expression.Lexes ds ls ↔ Expression.Lexes cs ls := by
  induction cs using Expression.splitRec generalizing prev ds ls with
  | nil =>
    rw [← List.append_nil ds]
    exact lexes_gaps_append_iff h.isGap_of_nil
  | mark c cs hc ih =>
    obtain ⟨gs, rest, rfl, hgs, hrest⟩ := h.exists_of_cons
    rw [lexes_gaps_append_iff hgs, Expression.lexes_cons_iff hc, Expression.lexes_cons_iff hc]
    simp only [ih hrest]
  | literal run cs hne hrun hcs ih =>
    obtain ⟨c, run, rfl⟩ := List.exists_cons_of_ne_nil hne
    obtain ⟨hc, htail⟩ := List.forall_mem_cons.mp hrun
    rw [List.cons_append] at h
    obtain ⟨gs, others, rfl, hgs, hothers⟩ := h.exists_of_cons
    obtain ⟨prev', rest, rfl, hrest⟩ := Spaced.exists_of_run htail hothers hc
    rw [lexes_gaps_append_iff hgs, ← List.cons_append,
      Expression.lexes_run_append_iff hne hrun (hrest.endsRun hcs),
      Expression.lexes_run_append_iff hne hrun hcs]
    simp only [ih hrest]

/-! ### The evaluator's text -/

/-- Blanks between tokens, not before a plus sign that means nothing, are blanks between the
numbers of the evaluator's text. `last` is the last character of that text so far, and `prev'` the
character that stands before `ds`. -/
theorem Spaced.plainAfter {prev prev' last : Option Char} {cs ds : List Char}
    (h : Spaced HarmlessPlace prev cs ds)
    (hprev : prev' = prev ∨ isFresh prev' = false ∧ ¬ BeforeLeadingPlus prev cs.head?)
    (hlast : last.any isLiteralChar → prev.any endsLiteral) :
    Spaced ApartFromNumbers last (Expression.plainAfter prev cs)
      (Expression.plainAfter prev' ds) := by
  induction h generalizing prev' last with
  | nil => exact .nil
  | @keep prev c cs ds h ih =>
    rcases glyph_cases c with rfl | rfl | rfl | rfl | ⟨htimes, hdivide, hpercent, hplus⟩
    · exact .keep (ih (.inl rfl) id)
    · exact .keep (ih (.inl rfl) fun hslash ↦ by cases hslash)
    · exact .keep (.keep (.keep (.keep (ih (.inl rfl) fun _ ↦ rfl))))
    · have hfresh : isFresh prev' = isFresh prev := by
        rcases hprev with rfl | ⟨hprev', hplace⟩
        · rfl
        · rw [hprev', eq_comm, ← Bool.not_eq_true]
          exact fun hprev ↦ hplace ⟨hprev, rfl⟩
      cases hprev : isFresh prev with
      | true =>
        rw [plainAfter_leadingPlus hprev, plainAfter_leadingPlus (hfresh.trans hprev)]
        refine ih (.inl rfl) fun hliteral ↦ ?_
        rw [isFresh_of_endsLiteral (hlast hliteral)] at hprev
        cases hprev
      | false =>
        rw [plainAfter_plus hprev, plainAfter_plus (hfresh.trans hprev)]
        exact .keep (ih (.inl rfl) fun hplus ↦ by cases hplus)
    · rw [plainAfter_cons htimes hdivide hpercent hplus,
        plainAfter_cons htimes hdivide hpercent hplus]
      refine .keep (ih (.inl rfl) fun hliteral ↦ ?_)
      rw [Option.any_some] at hliteral ⊢
      rw [endsLiteral, hliteral, Bool.true_or]
  | @blank prev g cs ds gap allowed h ih =>
    obtain ⟨hbetween, hplace⟩ := allowed
    rw [plainAfter_blank (isBlank_of_isGap gap)]
    refine .blank gap (fun hliteral ↦ ?_) (ih (.inr ⟨isFresh_of_isGap gap, hplace⟩) hlast)
    have hbefore := hlast hliteral
    exact endsRun_iff.mp <|
      endsRun_plainAfter (isFresh_of_endsLiteral hbefore) (endsRun_iff.mpr (hbetween hbefore))

/-! ### Leading plus signs -/

/-- Blanks that are put in stand before a plus sign that means nothing, or at none of these
places. -/
private theorem Spaced.cases_leadingPlus {prev : Option Char} {cs ds : List Char}
    (h : Spaced BetweenTokens prev cs ds) :
    Spaced HarmlessPlace prev cs ds ∨
      ∃ before g gs after, ds = before ++ (g :: gs) ++ '+' :: after ∧ (∀ d ∈ g :: gs, isGap d) ∧
        isFresh (before.getLast?.or prev) := by
  induction h with
  | nil => exact .inl .nil
  | @keep prev c cs ds h ih =>
    rcases ih with hrest | ⟨before, g, gs, after, rfl, hgs, hfresh⟩
    · exact .inl (.keep hrest)
    · refine .inr ⟨c :: before, g, gs, after, rfl, hgs, ?_⟩
      rw [List.getLast?_cons]
      cases hlast : before.getLast? with
      | none => rwa [hlast] at hfresh
      | some d => rwa [hlast] at hfresh
  | @blank prev g cs ds gap allowed h ih =>
    by_cases hplace : BeforeLeadingPlus prev cs.head?
    · obtain ⟨hfresh, hhead⟩ := hplace
      obtain ⟨cs, rfl⟩ := List.head?_eq_some_iff.mp hhead
      obtain ⟨gs, after, rfl, hgs, -⟩ := h.exists_of_cons
      exact .inr ⟨[], g, gs, after, rfl, List.forall_mem_cons.mpr ⟨gap, hgs⟩, hfresh⟩
    · rcases ih with hrest | ⟨before, g', gs, after, rfl, hgs, hfresh⟩
      · exact .inl (.blank gap ⟨allowed, hplace⟩ hrest)
      · cases before with
        | nil =>
          exact .inr ⟨[], g, g' :: gs, after, rfl, List.forall_mem_cons.mpr ⟨gap, hgs⟩, hfresh⟩
        | cons c before =>
          refine .inr ⟨g :: c :: before, g', gs, after, rfl, hgs, ?_⟩
          rwa [List.getLast?_cons_cons]

/-- A blank before a plus sign that would mean nothing leaves no value. -/
private theorem compute_ne_of_blank_before_plus {before gs after : List Char} {g : Char} {v : Float}
    (hgs : ∀ d ∈ g :: gs, isGap d) (hfresh : isFresh before.getLast?) :
    compute (before ++ (g :: gs) ++ '+' :: after) ≠ .ok v := by
  intro hv
  have hblank : ∀ d ∈ g :: gs, isBlank d := fun d hd ↦ isBlank_of_isGap (hgs d hd)
  have hopening : g ≠ '(' := by
    rintro rfl
    cases hgs '(' (by simp)
  have hdue : (solid? before.reverse).all fun c ↦ Expression.isOperatorChar c || c == '(' := by
    rcases List.eq_nil_or_concat before with rfl | ⟨before, c, rfl⟩
    · rfl
    · rw [List.concat_eq_append, List.getLast?_concat, isFresh, Option.all_some, beq_iff_eq]
        at hfresh
      subst hfresh
      rw [List.concat_eq_append, solid?_reverse (by decide) (by simp)]
      rfl
  refine Diagnosis.not_leads_of_operator (by decide) (by decide) (fun _ ↦ ?_) ?_
    (leads_of_evaluate (compute_eq_ok_iff_evaluate.mp hv))
  · exact Diagnosis.isFresh_getLast? hopening fun d hd ↦ hblank d (List.mem_cons_of_mem g hd)
  · rwa [List.reverse_append, solid?_blanks_append fun d hd ↦ hblank d (List.mem_reverse.mp hd)]

/-! ### Values -/

/-- An expression keeps its value, and gets no other, when spaces and tabs are put between its
tokens, unless one stands before a plus sign that means nothing: then there is no value. -/
theorem compute_spaced_iff {cs ds : List Char} (h : Spaced BetweenTokens none cs ds) {v : Float} :
    compute ds = .ok v ↔ compute cs = .ok v ∧
      Spaced HarmlessPlace none cs ds := by
  have hkept (h : Spaced HarmlessPlace none cs ds) :
      compute ds = .ok v ↔ compute cs = .ok v := by
    have hplain : Spaced ApartFromNumbers none (plain cs) (plain ds) :=
      h.plainAfter (.inl rfl) fun hnone ↦ by cases hnone
    simp only [compute_eq_ok_iff_evaluate, Expression.evaluate_eq_ok_iff, hplain.lexes_iff]
  constructor
  · intro hv
    rcases h.cases_leadingPlus with hspaced | ⟨before, g, gs, after, rfl, hgs, hfresh⟩
    · exact ⟨(hkept hspaced).mp hv, hspaced⟩
    · rw [Option.or_none] at hfresh
      exact absurd hv (compute_ne_of_blank_before_plus hgs hfresh)
  · rintro ⟨hv, hspaced⟩
    exact (hkept hspaced).mpr hv

/-- Blanks stand at the beginning, before a percent sign, and before a plus sign that is an
operator. -/
theorem compute_spaced_percent :
    Spaced BetweenTokens none "5%+3".toList " 5 %\t+3".toList ∧
      compute " 5 %\t+3".toList = .ok 3.05 := by
  have hspaced : Spaced HarmlessPlace none "5%+3".toList " 5 %\t+3".toList :=
    .blank rfl (by decide) <| .keep <| .blank rfl (by decide) <| .keep <| .blank rfl (by decide) <|
      .keep <| .keep .nil
  have h : Spaced BetweenTokens none "5%+3".toList " 5 %\t+3".toList :=
    hspaced.mono fun _ _ hplace ↦ hplace.1
  have hvalue : compute "5%+3".toList = .ok 3.05 := by decide +kernel
  exact ⟨h, (compute_spaced_iff h).mpr ⟨hvalue, hspaced⟩⟩

/-- With a blank before it a plus sign at the beginning leaves no value. -/
theorem blank_matters_before_plus :
    Spaced BetweenTokens none "+5".toList " +5".toList ∧ compute "+5".toList = .ok 5 ∧
      compute " +5".toList = .error (.invalidExpression (.unexpectedToken '+' 1)) :=
  ⟨.blank rfl (by decide) (.keep (.keep .nil)), by decide +kernel, by decide +kernel⟩

end DeskCalculator.Display
