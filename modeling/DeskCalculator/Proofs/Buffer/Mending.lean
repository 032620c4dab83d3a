import DeskCalculator.Proofs.Buffer.Repair
import DeskCalculator.Proofs.Buffer.Succession

/-!
# Repairs keep the shape of a buffer

A repair drops percent signs that stand right after an operator. What stood after them then stands
after the operator, and the parentheses that are closed at the end can come to be empty. A repair
that is offered has a value, so neither two operators that cannot stand together nor an empty
parenthesis is left. A point can be: it stays behind where the percent sign made up for its digit.
-/

namespace DeskCalculator.Buffer

open Diagnosis (mend diagnose dropPercentsAfter dropTrailingOperator)
open Expression (Lexeme Shape plain plainAfter evaluate isMisplacedPercent isOperatorChar
  solidAfter)

/-! ### Where a value is wanted -/

/-- Where a value is wanted, the buffer ends in an operator or an opening parenthesis, if in
anything. -/
private theorem solid?_of_wantsValue {b : List Char} (h : wantsValue b) :
    (Diagnosis.solid? b.reverse).all fun c ↦ isOperatorChar c || c == '(' := by
  rcases List.eq_nil_or_concat b with rfl | ⟨a, c, rfl⟩
  · rfl
  · rw [List.concat_eq_append] at h ⊢
    rw [wantsValue_concat, Bool.or_eq_true, beq_iff_eq] at h
    have hblank : Text.isBlank c = false := by
      rcases h with hoperator | rfl
      · exact Typable.isBlank_eq_false (.inr (.inl hoperator))
      · rfl
    rw [Display.solid?_reverse hblank (by simp), Option.all_some]
    rcases h with hoperator | rfl
    · rcases isOperatorGlyph_cases hoperator with rfl | rfl | rfl | rfl <;> rfl
    · rfl

/-- A symbol that is no beginning of an operand has no value there. -/
theorem not_evaluates_of_refused {b cs : List Char} {c d : Char} {l : Lexeme} (hb : wantsValue b)
    (hplain : plainAfter b.getLast? (c :: cs) = d :: plainAfter (some c) cs)
    (hd : Expression.symbol? d = some l) (hl : ∀ n, (Shape.operand n).step l = none) (x : Float) :
    evaluate (plain (b ++ c :: cs)) ≠ .ok x := by
  intro hx
  exact Display.not_leads_of_operand (solid?_of_wantsValue hb) hplain hd hl
    (Display.leads_of_evaluate hx)

/-! ### Dropping percent signs -/

/-- What stands after what once percent signs are dropped and parentheses closed. -/
def Meets (k : Lapses) (c d : Char) : Prop :=
  follows k c d ∨ (isOperatorGlyph c ∧ isOperatorGlyph d) ∨ (c = '(' ∧ d = ')')

/-- The characters that keys type are not blank. -/
theorem isBlank_of_meets {k : Lapses} {c d : Char} (h : Meets k c d) : Text.isBlank d = false := by
  rcases h with h | ⟨-, h⟩ | ⟨-, rfl⟩
  · rcases follows_cases h with hdigit | rfl | hoperator | rfl | rfl | rfl
    · exact Typable.isBlank_eq_false (.inl (isLiteralChar_of_isDigit hdigit))
    · rfl
    · exact Typable.isBlank_eq_false (.inr (.inl hoperator))
    · rfl
    · rfl
    · rfl
  · exact Typable.isBlank_eq_false (.inr (.inl h))
  · rfl

/-- The operators of the keypad are the ones after which a percent sign has no operand. -/
private theorem isOperatorGlyph_of_follows {k : Lapses} {c d : Char} (h : follows k c d)
    (hd : isOperatorChar d) : isOperatorGlyph d := by
  rcases follows_cases h with hdigit | rfl | hoperator | rfl | rfl | rfl
  · simp only [isOperatorChar, Bool.or_eq_true, beq_iff_eq] at hd
    rcases hd with ((((rfl | rfl) | rfl) | rfl) | rfl) | rfl <;> cases hdigit
  · cases hd
  · exact hoperator
  · cases hd
  · cases hd
  · cases hd

/-- What could stand after a percent sign can stand after the operator before it. -/
private theorem meets_of_follows_percent {k : Lapses} (hk : k.points) {c d : Char}
    (hc : isOperatorGlyph c) (h : follows k '%' d) : Meets k c d := by
  have hliteral := isLiteralChar_of_isOperatorGlyph hc
  rcases follows_cases h with hdigit | rfl | hoperator | rfl | rfl | rfl
  · left
    rw [follows_digit hdigit]
    rintro rfl
    cases hc
  · left
    rw [follows_point, hk, hc]
    simp
  · exact .inr (.inl ⟨hc, hoperator⟩)
  all_goals
    left
    rcases isOperatorGlyph_cases hc with rfl | rfl | rfl | rfl <;> rfl

/-- Dropping percent signs, `c` being what stood before them and `e` what is left of it. -/
private theorem isChain_dropPercents {k : Lapses} (hk : k.points) {c e : Char} {cs : List Char}
    (h : (c :: cs).IsChain fun c d ↦ follows k c d) (hc : isOperatorChar c → isOperatorGlyph c)
    (he : e = c ∨ (c = '%' ∧ isOperatorGlyph e)) :
    (e :: dropPercentsAfter (some c) cs).IsChain (Meets k) := by
  induction cs generalizing c e with
  | nil => exact List.isChain_singleton e
  | cons d cs ih =>
    rw [List.isChain_cons_cons] at h
    have hsolid : solidAfter (some c) d = some d := by
      rw [solidAfter, isBlank_of_meets (.inl h.1)]
      rfl
    rw [dropPercentsAfter, hsolid]
    by_cases hdrop : isMisplacedPercent (some c) d
    · rw [if_pos hdrop]
      simp only [isMisplacedPercent, Option.all_some, Bool.and_eq_true, Bool.or_eq_true,
        beq_iff_eq] at hdrop
      obtain ⟨rfl, hoperator | rfl⟩ := hdrop
      · have hec : e = c := by
          apply he.resolve_right
          rintro ⟨rfl, -⟩
          cases hoperator
        rw [hec]
        exact ih h.2 (fun h ↦ by cases h) (.inr ⟨rfl, hc hoperator⟩)
      · cases h.1
    · rw [if_neg hdrop, List.isChain_cons_cons]
      refine ⟨?_, ih h.2 (isOperatorGlyph_of_follows h.1) (.inl rfl)⟩
      rcases he with rfl | ⟨rfl, hglyph⟩
      · exact .inl h.1
      · exact meets_of_follows_percent hk hglyph h.1

/-- Without the percent signs that have no operand. -/
theorem Fits.dropPercents {k : Lapses} (hk : k.points) {b : List Char} (h : Fits k b) :
    Formed (Meets k) (dropPercentsAfter none b) where
  chain := by
    have hnone : dropPercentsAfter none b = dropPercentsAfter (some '(') b := by
      cases b with
      | nil => rfl
      | cons c b =>
        have hblank := isBlank_of_meets (.inl (List.isChain_cons_cons.mp h.chain).1)
        rw [dropPercentsAfter, dropPercentsAfter, solidAfter, solidAfter, hblank]
        rfl
    rw [hnone]
    exact isChain_dropPercents hk h.chain (fun h ↦ by cases h) (.inl rfl)
  points := by
    rw [Expression.pointsApart_iff, Diagnosis.literals_dropPercents, ← Expression.pointsApart_iff]
    exact h.points

/-! ### Repairs -/

variable {k : Lapses} {b : List Char}

theorem Formed.trimRight_eq (h : Formed (Meets k) b) : Text.trimRight b = b := by
  apply Diagnosis.trimRight_eq_self
  intro c hc
  obtain ⟨a, rfl⟩ := List.getLast?_eq_some_iff.mp hc
  exact isBlank_of_meets h.rel_lastChar

theorem Formed.append_closing (h : Formed (Meets k) b) (n : Nat) :
    Formed (Meets k) (b ++ List.replicate n ')') := by
  induction n generalizing b with
  | zero => rwa [List.replicate_zero, List.append_nil]
  | succ n ih =>
    rw [List.replicate_succ, List.append_cons]
    apply ih
    apply h.concat
    · by_cases hopening : lastChar b = '('
      · exact .inr (.inr ⟨hopening, rfl⟩)
      · exact .inl (follows_afterValue (.inr rfl) hopening)
    · exact fun heq ↦ by cases heq

/-- A repaired buffer. -/
theorem Fits.mend (hk : k.points) (h : Fits k b) : Formed (Meets k) (mend b) := by
  have hdropped := h.dropPercents hk
  have hkept : Formed (Meets k) (dropTrailingOperator (dropPercentsAfter none b)) := by
    rw [dropTrailingOperator]
    split
    · exact hdropped.of_isPrefix (List.dropLast_prefix _)
    · exact hdropped
  rw [Diagnosis.mend, hdropped.trimRight_eq]
  exact hkept.append_closing _

/-- A plus sign means nothing only at the beginning and after an opening parenthesis. -/
private theorem lastChar_of_isFresh (h : Display.isFresh b.getLast?) : lastChar b = '(' := by
  rw [lastChar]
  revert h
  cases b.getLast? with
  | none => exact fun _ ↦ rfl
  | some c => exact fun h ↦ beq_iff_eq.mp h

/-- Where a text has a value, its characters follow one another as they can be typed. -/
private theorem Formed.fits_of_evaluate (h : Formed (Meets k) b) {x : Float}
    (hx : evaluate (plain b) = .ok x) : Fits k b := by
  refine ⟨?_, h.points⟩
  rw [List.isChain_iff_forall_rel_of_append_cons_cons]
  intro c d before after heq
  have hmeets := List.isChain_iff_forall_rel_of_append_cons_cons.mp h.chain heq
  obtain ⟨a, rfl, hlast⟩ : ∃ a, b = a ++ d :: after ∧ lastChar a = c := by
    cases before with
    | nil =>
      cases heq
      exact ⟨[], rfl, rfl⟩
    | cons e before =>
      rw [List.cons_append] at heq
      cases heq
      exact ⟨before ++ [c], by simp, lastChar_concat before c⟩
  rcases hmeets with hfollows | ⟨hc, hd⟩ | ⟨rfl, rfl⟩
  · exact hfollows
  · have hwants : wantsValue a := by
      rw [wantsValue_iff, hlast]
      exact .inl hc
    rcases isOperatorGlyph_cases hd with rfl | rfl | rfl | rfl
    · have hplus : Display.isFresh a.getLast? = false := by
        rw [← Bool.not_eq_true]
        intro hfresh
        rw [← hlast, lastChar_of_isFresh hfresh] at hc
        cases hc
      have hplain := Display.plainAfter_plus hplus after
      exact absurd hx (not_evaluates_of_refused hwants hplain rfl (fun _ ↦ rfl) x)
    · rfl
    · exact absurd hx (not_evaluates_of_refused (d := '*') hwants rfl rfl (fun _ ↦ rfl) x)
    · exact absurd hx (not_evaluates_of_refused (d := '/') hwants rfl rfl (fun _ ↦ rfl) x)
  · have hwants : wantsValue a := wantsValue_iff.mpr (.inr hlast)
    exact absurd hx (not_evaluates_of_refused (d := ')') hwants rfl rfl (fun _ ↦ rfl) x)

/-- A repair that is offered for a buffer of the shape that keys keep has that shape, points after
operators being allowed for. -/
theorem Shaped.suggestion (hk : k.points) (h : Shaped k b) {fixed : List Char}
    {e : Expression.CalcError} (hfixed : (diagnose b e).suggestion = some fixed) :
    Shaped k fixed := by
  obtain ⟨rfl, hne, x, hx⟩ := Diagnosis.mend_of_suggestion hfixed
  exact ⟨hne, (h.2.mend hk).fits_of_evaluate hx⟩

end DeskCalculator.Buffer
