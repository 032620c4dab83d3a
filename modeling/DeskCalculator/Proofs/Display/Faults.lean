import DeskCalculator.Expression.Compute
import DeskCalculator.Proofs.Display.Lexing
import DeskCalculator.Proofs.Expression.Beginning
import DeskCalculator.Proofs.Expression.Literals

/-!
# What a display text is rejected for

Every character that the display can show is a digit, a point, or a symbol, so a piece of a display
text without two points in a number can be no token only if it is a point without a digit. A percent
sign before the point makes up for the digit, since it is evaluated as `/100`.
-/

namespace DeskCalculator.Display

open Expression (isLiteralChar literals PointsApart EndsRun EvalError Piece Token plain plainAfter
  tokensFrom tokenize evaluate evaluateTokens readNumeral?)

/-- A point to which no digit belongs before it, `prev` being the character before the text. -/
def HasLonePoint (prev : Option Char) (cs : List Char) : Prop :=
  ∃ before after, cs = before ++ '.' :: after ∧
    ∀ c ∈ before.getLast?.or prev, c.isDigit = false ∧ c ≠ '%'

/-- An error of a point without a digit. -/
def IsLonePointError (e : EvalError) : Prop :=
  ∃ pos, e = .invalidNumber ['.'] pos

/-- A run of digits and points that is no number is a single point. -/
private theorem eq_point_of_readNumeral?_eq_none {run : List Char} (hne : run ≠ [])
    (hrun : ∀ c ∈ run, isLiteralChar c) (hpoint : run.count '.' ≤ 1)
    (h : readNumeral? run = none) : run = ['.'] := by
  have hdigits : ∀ c ∈ run, c.isDigit = false := by
    intro c hc
    rw [← Bool.not_eq_true]
    intro hdigit
    have hsome := Expression.readNumeral?_eq_some_iff.mpr ⟨⟨⟨c, hc, hdigit⟩, hpoint⟩, rfl⟩
    rw [h] at hsome
    cases hsome
  have hpoints : ∀ c ∈ run, c = '.' := by
    intro c hc
    have hliteral := hrun c hc
    rw [isLiteralChar, hdigits c hc, Bool.false_or, beq_iff_eq] at hliteral
    exact hliteral
  have hall : run = List.replicate run.length '.' := List.eq_replicate_of_mem hpoints
  have hlength : run.length = 1 := by
    have hpos := List.length_pos_iff.mpr hne
    rw [hall, List.count_replicate_self] at hpoint
    omega
  rw [hall, hlength]
  rfl

/-- After a symbol the rest decides. -/
private theorem tokensFrom_symbol_error {c : Char} {l : Expression.Lexeme}
    (hc : Expression.symbol? c = some l) {pos : Nat} {cs : List Char} {e : EvalError}
    (h : tokensFrom pos (Piece.split (c :: cs)) = .error e) :
    tokensFrom (pos + 1) (Piece.split cs) = .error e := by
  rw [Piece.split_cons_mark (Expression.isLiteralChar_of_symbol? hc), tokensFrom,
    if_neg (by simp [Expression.isGap_of_symbol? hc]), hc] at h
  cases hts : tokensFrom (pos + 1) (Piece.split cs) with
  | error e' =>
    rw [hts] at h
    cases h
    rfl
  | ok ts =>
    rw [hts] at h
    cases h

/-- A number literal is at fault itself, or the rest decides. -/
theorem tokensFrom_run_error {run rest : List Char} (hne : run ≠ [])
    (hrun : ∀ c ∈ run, isLiteralChar c) (hrest : EndsRun rest) {pos : Nat} {e : EvalError}
    (h : tokensFrom pos (Piece.split (run ++ rest)) = .error e) :
    (readNumeral? run = none ∧ e = .invalidNumber run pos) ∨
      tokensFrom (pos + run.length) (Piece.split rest) = .error e := by
  rw [Piece.split_literal_append hne hrun hrest, tokensFrom] at h
  cases hread : readNumeral? run with
  | none =>
    rw [hread] at h
    cases h
    exact .inl ⟨rfl, rfl⟩
  | some x =>
    rw [hread] at h
    cases hts : tokensFrom (pos + run.length) (Piece.split rest) with
    | error e' =>
      rw [hts] at h
      cases h
      exact .inr rfl
    | ok ts =>
      rw [hts] at h
      cases h

/-- A text is no sequence of tokens only because of a lone point of `cs`. -/
def LonePointsAlone (text : List Char) (prev : Option Char) (cs : List Char) : Prop :=
  ∀ pos e, tokensFrom pos (Piece.split text) = .error e → IsLonePointError e ∧ HasLonePoint prev cs

theorem LonePointsAlone.symbol {c : Char} {l : Expression.Lexeme}
    (hc : Expression.symbol? c = some l) {text cs : List Char} {prev : Option Char}
    (h : LonePointsAlone text prev cs) :
    LonePointsAlone (c :: text) prev cs :=
  fun pos e he ↦ h (pos + 1) e (tokensFrom_symbol_error hc he)

/-- A lone point is still one after a character, if it was one after that character. -/
theorem HasLonePoint.cons {c : Char} {cs : List Char} (h : HasLonePoint (some c) cs) :
    HasLonePoint none (c :: cs) := by
  obtain ⟨before, after, rfl, hbefore⟩ := h
  refine ⟨c :: before, after, rfl, fun d hd ↦ hbefore d ?_⟩
  rw [List.getLast?_cons, Option.or_none] at hd
  cases hlast : before.getLast? with
  | none => rwa [hlast] at hd
  | some d' => rwa [hlast] at hd

/-- A lone point does not mind a character before the text that needs no digit. -/
private theorem HasLonePoint.of_none {c : Char} (hc : c.isDigit = false ∧ c ≠ '%') {cs : List Char}
    (h : HasLonePoint none cs) : HasLonePoint (some c) cs := by
  obtain ⟨before, after, rfl, hbefore⟩ := h
  refine ⟨before, after, rfl, fun d hd ↦ ?_⟩
  cases hlast : before.getLast? with
  | none =>
    rw [hlast] at hd
    cases hd
    exact hc
  | some d' =>
    rw [hlast] at hd hbefore
    exact hbefore d hd

/-- A lone point after a number stands apart from it. -/
theorem HasLonePoint.append {prev : Option Char} {run rest : List Char} (hrest : EndsRun rest)
    (h : HasLonePoint none rest) : HasLonePoint prev (run ++ rest) := by
  obtain ⟨before, after, rfl, hbefore⟩ := h
  refine ⟨run ++ before, after, by rw [List.append_assoc], ?_⟩
  rcases List.eq_nil_or_concat before with rfl | ⟨before, c, rfl⟩
  · exact absurd (hrest '.' rfl) (by decide)
  · rw [List.concat_eq_append] at *
    rw [List.getLast?_concat] at hbefore
    rw [← List.append_assoc, List.getLast?_concat]
    exact hbefore

/-- The number `100` of a percent sign is no fault where no number goes on. -/
theorem LonePointsAlone.hundred {cs : List Char} (hcs : EndsRun cs)
    (h : LonePointsAlone (plainAfter (some '%') cs) none cs) :
    LonePointsAlone ('1' :: '0' :: '0' :: plainAfter (some '%') cs) (some '%') cs := by
  intro pos e he
  have hrun : ∀ c ∈ ['1', '0', '0'], isLiteralChar c := List.all_eq_true.mp rfl
  have hends : EndsRun (plainAfter (some '%') cs) := endsRun_plainAfter rfl hcs
  rcases tokensFrom_run_error (by simp) hrun hends he with ⟨hread, -⟩ | he
  · cases hread
  · have hcause := h _ e he
    exact ⟨hcause.1, @HasLonePoint.append _ [] cs hcs hcause.2⟩

/-- A literal of a display text is a fault only if it is a lone point. -/
theorem LonePointsAlone.run {run rest : List Char} (hne : run ≠ [])
    (hrun : ∀ c ∈ run, isLiteralChar c) (hpoint : run.count '.' ≤ 1) (hrest : EndsRun rest)
    (h : ∀ prev, LonePointsAlone (plainAfter prev rest) none rest) (prev : Option Char) :
    LonePointsAlone (plainAfter prev (run ++ rest)) none (run ++ rest) := by
  intro pos e he
  obtain ⟨d, hd, heq⟩ := plainAfter_run_append hne hrun prev rest
  rw [heq] at he
  rcases tokensFrom_run_error hne hrun (endsRun_plainAfter hd hrest) he with ⟨hread, rfl⟩ | he
  · have hlone := eq_point_of_readNumeral?_eq_none hne hrun hpoint hread
    subst hlone
    exact ⟨⟨pos, rfl⟩, [], rest, rfl, fun c hc ↦ by cases hc⟩
  · have hcause := h _ _ e he
    exact ⟨hcause.1, hcause.2.append hrest⟩

/-- After a percent sign a literal of a display text is no fault, since it goes on from `100`. -/
private theorem LonePointsAlone.hundred_run {run rest : List Char} (hne : run ≠ [])
    (hrun : ∀ c ∈ run, isLiteralChar c) (hpoint : run.count '.' ≤ 1) (hrest : EndsRun rest)
    (h : ∀ prev, LonePointsAlone (plainAfter prev rest) none rest) :
    LonePointsAlone ('1' :: '0' :: '0' :: plainAfter (some '%') (run ++ rest)) (some '%')
      (run ++ rest) := by
  intro pos e he
  obtain ⟨d, hd, heq⟩ := plainAfter_run_append hne hrun (some '%') rest
  have hlong : ∀ c ∈ '1' :: '0' :: '0' :: run, isLiteralChar c := by
    simpa [isLiteralChar] using hrun
  have hpoint' : ('1' :: '0' :: '0' :: run).count '.' ≤ 1 := by simpa using hpoint
  have hread := Expression.readNumeral?_eq_some_iff.mpr ⟨⟨⟨'1', by simp, rfl⟩, hpoint'⟩, rfl⟩
  rw [heq] at he
  rcases tokensFrom_run_error (by simp) hlong (endsRun_plainAfter hd hrest) he with ⟨hnone, -⟩ | he
  · rw [hnone] at hread
    cases hread
  · have hcause := h _ _ e he
    exact ⟨hcause.1, hcause.2.append hrest⟩

/-- Whatever stands before it, a display text of numbers with at most one point each and of symbols
is no sequence of tokens only because of a lone point. -/
private theorem lonePointsAlone {cs : List Char}
    (hchars : ∀ c ∈ cs, isLiteralChar c ∨ (symbol? c).isSome)
    (hpoints : ∀ run ∈ literals cs, run.count '.' ≤ 1) :
    (∀ prev, LonePointsAlone (plainAfter prev cs) none cs) ∧
      LonePointsAlone ('1' :: '0' :: '0' :: plainAfter (some '%') cs) (some '%') cs := by
  induction cs using Expression.splitRec with
  | nil =>
    have hnil (prev : Option Char) : LonePointsAlone (plainAfter prev []) none [] := by
      intro pos e he
      cases he
    exact ⟨hnil, .hundred (fun c hc ↦ by cases hc) (hnil _)⟩
  | mark c cs hc ih =>
    rw [Expression.literals_cons_mark hc] at hpoints
    obtain ⟨hafter, hhundred⟩ := ih (fun d hd ↦ hchars d (List.mem_cons_of_mem c hd)) hpoints
    have hends : EndsRun (c :: cs) := fun d hd ↦ by cases hd; exact hc
    have hdigit : c.isDigit = false := (Bool.or_eq_false_iff.mp hc).1
    have hkept (hpercent : c ≠ '%') {text : List Char} (h : LonePointsAlone text none cs) :
        LonePointsAlone text none (c :: cs) := by
      intro pos e he
      have hcause := h pos e he
      exact ⟨hcause.1, (hcause.2.of_none ⟨hdigit, hpercent⟩).cons⟩
    have hmark (prev : Option Char) :
        LonePointsAlone (plainAfter prev (c :: cs)) none (c :: cs) := by
      rcases glyph_cases c with rfl | rfl | rfl | rfl | ⟨htimes, hdivide, hpercent, hplus⟩
      · exact hkept (by decide) (.symbol (c := '*') rfl (hafter _))
      · exact hkept (by decide) (.symbol (c := '/') rfl (hafter _))
      · intro pos e he
        have hcause := LonePointsAlone.symbol (c := '/') rfl hhundred pos e he
        exact ⟨hcause.1, hcause.2.cons⟩
      · cases hfresh : isFresh prev with
        | true =>
          rw [plainAfter_leadingPlus hfresh]
          exact hkept (by decide) (hafter _)
        | false =>
          rw [plainAfter_plus hfresh]
          exact hkept (by decide) (.symbol rfl (hafter _))
      · have hsymbol := hchars c (by simp)
        rw [hc, symbol?_eq htimes hdivide hpercent, Option.isSome_map] at hsymbol
        obtain ⟨l, hl⟩ := Option.isSome_iff_exists.mp (hsymbol.resolve_left (by decide))
        rw [plainAfter_cons htimes hdivide hpercent hplus]
        exact hkept hpercent (.symbol hl (hafter _))
    exact ⟨hmark, .hundred hends (hmark _)⟩
  | literal run rest hne hrun hrest ih =>
    rw [Expression.literals_run_append hne hrun hrest, List.forall_mem_cons] at hpoints
    obtain ⟨hafter, -⟩ := ih (fun c hc ↦ hchars c (List.mem_append_right run hc)) hpoints.2
    exact ⟨.run hne hrun hpoints.1 hrest hafter, .hundred_run hne hrun hpoints.1 hrest hafter⟩

/-- A display text that begins with a lexeme of its own can be rejected only for the place of a
token, for a result that is not finite, and for a lone point. -/
theorem evaluate_error {c : Char} {cs : List Char} {e : EvalError}
    (hhead : Expression.isGap c = false ∧ ∀ ds, plain (c :: ds) = c :: plainAfter (some c) ds)
    (hchars : ∀ d ∈ c :: cs, isLiteralChar d ∨ (symbol? d).isSome) (hpoints : PointsApart (c :: cs))
    (h : evaluate (plain (c :: cs)) = .error e) :
    (e = .nonFinite ∨ e = .unexpectedEnd ∨ ∃ found pos, e = .unexpectedToken found pos) ∨
      (IsLonePointError e ∧ HasLonePoint none (c :: cs)) := by
  rw [evaluate] at h
  cases hts : tokenize (plain (c :: cs)) with
  | error e' =>
    rw [hts] at h
    cases h
    exact .inr ((lonePointsAlone hchars (Expression.pointsApart_iff.mp hpoints)).1 none 0 _ hts)
  | ok ts =>
    rw [hts] at h
    refine .inl (Expression.evaluateTokens_error ?_ h)
    rintro rfl
    have hlexes := Expression.exists_tokenize_iff.mp ⟨_, hts, rfl⟩
    rw [hhead.2] at hlexes
    generalize hds : c :: plainAfter (some c) cs = ds at hlexes
    cases hlexes with
    | nil => cases hds
    | gap hgap _ =>
      cases hds
      rw [hhead.1] at hgap
      cases hgap

end DeskCalculator.Display
