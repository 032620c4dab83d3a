import DeskCalculator.Expression.Compute
import DeskCalculator.Proofs.Display.Parse
import DeskCalculator.Proofs.Expression.Lexing
import Mathlib.Data.List.Chain

/-!
# What stands on the display

`Lexes` says what lexemes a display text has. It differs from the evaluator's in the glyphs `×` and
`÷`, in the percent sign, and in a plus sign at the very beginning or right after an opening
parenthesis, which is a lexeme of its own. The evaluator's text of a display text has the expanded
lexemes, and no others, unless a percent sign runs into a number.
-/

namespace DeskCalculator.Display

open Expression (isLiteralChar isGap numeralValue EndsRun plain plainAfter)

/-- What a character by itself stands for. -/
def symbol? : Char → Option Lexeme
  | '×' => some (.plain (.mul .times))
  | '÷' => some (.plain (.mul .divide))
  | '%' => some .percent
  | c => (Expression.symbol? c).map .plain

/-- The lexemes of a display text. `fresh` says that the text stands at the very beginning or right
after an opening parenthesis. -/
inductive Lexes : (fresh : Bool) → List Char → List Lexeme → Prop where
  | nil {fresh : Bool} : Lexes fresh [] []
  /-- A space or a tab between lexemes. -/
  | gap {fresh : Bool} {c : Char} {cs : List Char} {ls : List Lexeme} (hc : isGap c)
      (h : Lexes false cs ls) : Lexes fresh (c :: cs) ls
  /-- A plus sign that means nothing. -/
  | leadingPlus {cs : List Char} {ls : List Lexeme} (h : Lexes false cs ls) :
      Lexes true ('+' :: cs) (.leadingPlus :: ls)
  | symbol {fresh : Bool} {c : Char} {l : Lexeme} {cs : List Char} {ls : List Lexeme}
      (hc : symbol? c = some l) (hplus : fresh → c ≠ '+') (h : Lexes (c == '(') cs ls) :
      Lexes fresh (c :: cs) (l :: ls)
  /-- A maximal run of digits and points with at least one digit and at most one point. -/
  | number {fresh : Bool} {run rest : List Char} {ls : List Lexeme}
      (literal : ∀ c ∈ run, isLiteralChar c) (digit : ∃ c ∈ run, c.isDigit)
      (point : run.count '.' ≤ 1) (maximal : EndsRun rest) (h : Lexes false rest ls) :
      Lexes fresh (run ++ rest) (.plain (.number (numeralValue run)) :: ls)

/-- No percent sign is immediately followed by a digit or a point. -/
def PercentsApart (cs : List Char) : Prop :=
  cs.IsChain fun c d ↦ c = '%' → isLiteralChar d = false

instance (cs : List Char) : Decidable (PercentsApart cs) :=
  inferInstanceAs (Decidable (cs.IsChain _))

theorem PercentsApart.of_append {cs ds : List Char} (h : PercentsApart (cs ++ ds)) :
    PercentsApart ds :=
  List.IsChain.right_of_append h

theorem PercentsApart.of_cons {c : Char} {cs : List Char} (h : PercentsApart (c :: cs)) :
    PercentsApart cs :=
  List.IsChain.tail h

/-- No number goes on after a percent sign. -/
theorem PercentsApart.endsRun {cs : List Char} (h : PercentsApart ('%' :: cs)) : EndsRun cs :=
  fun _ hc ↦ List.IsChain.rel_head? h hc rfl

/-! ### The evaluator's text -/

/-- Whether a plus sign after `prev` means nothing. -/
def isFresh (prev : Option Char) : Bool :=
  prev.all (· == '(')

theorem plainAfter_leadingPlus {prev : Option Char} (h : isFresh prev) (cs : List Char) :
    plainAfter prev ('+' :: cs) = plainAfter (some '+') cs := by
  rw [plainAfter, if_pos (by exact h)]

theorem plainAfter_plus {prev : Option Char} (h : isFresh prev = false) (cs : List Char) :
    plainAfter prev ('+' :: cs) = '+' :: plainAfter (some '+') cs := by
  rw [plainAfter, if_neg (by rw [isFresh] at h; simp [h])]

/-- A character without a glyph of its own is kept. -/
theorem plainAfter_cons {c : Char} (htimes : c ≠ '×') (hdivide : c ≠ '÷') (hpercent : c ≠ '%')
    (hplus : c ≠ '+') (prev : Option Char) (cs : List Char) :
    plainAfter prev (c :: cs) = c :: plainAfter (some c) cs := by
  rw [plainAfter]
  all_goals assumption

/-- Digits and points are kept. -/
theorem plainAfter_literal {c : Char} (h : isLiteralChar c) (prev : Option Char) (cs : List Char) :
    plainAfter prev (c :: cs) = c :: plainAfter (some c) cs := by
  apply plainAfter_cons
  all_goals
    rintro rfl
    revert h
    decide

/-- After a digit or a point a plus sign means something. -/
private theorem isFresh_literal {c : Char} (h : isLiteralChar c) : isFresh (some c) = false := by
  have hc : c ≠ '(' := by
    rintro rfl
    cases h
  simpa [isFresh] using hc

/-- A run of digits and points is kept, and a plus sign after it means something. -/
theorem plainAfter_run_append {run : List Char} (hne : run ≠ [])
    (hrun : ∀ c ∈ run, isLiteralChar c) (prev : Option Char) (rest : List Char) :
    ∃ d, isFresh (some d) = false ∧
      plainAfter prev (run ++ rest) = run ++ plainAfter (some d) rest := by
  induction run generalizing prev with
  | nil => exact absurd rfl hne
  | cons c run ih =>
    have hc : isLiteralChar c := hrun c (by simp)
    rw [List.cons_append, plainAfter_literal hc]
    cases run with
    | nil => exact ⟨c, isFresh_literal hc, rfl⟩
    | cons e run =>
      obtain ⟨d, hd, h⟩ := ih (by simp) (fun f hf ↦ hrun f (by simp [hf])) (some c)
      refine ⟨d, hd, ?_⟩
      rw [h]
      rfl

theorem glyph_cases (c : Char) :
    c = '×' ∨ c = '÷' ∨ c = '%' ∨ c = '+' ∨ (c ≠ '×' ∧ c ≠ '÷' ∧ c ≠ '%' ∧ c ≠ '+') := by
  by_cases htimes : c = '×'
  · exact .inl htimes
  · by_cases hdivide : c = '÷'
    · exact .inr (.inl hdivide)
    · by_cases hpercent : c = '%'
      · exact .inr (.inr (.inl hpercent))
      · by_cases hplus : c = '+'
        · exact .inr (.inr (.inr (.inl hplus)))
        · exact .inr (.inr (.inr (.inr ⟨htimes, hdivide, hpercent, hplus⟩)))

/-- The evaluator's text of a longer text is that of its beginning and of what follows. -/
theorem plainAfter_append (prev : Option Char) (cs ds : List Char) :
    plainAfter prev (cs ++ ds) = plainAfter prev cs ++ plainAfter (cs.getLast?.or prev) ds := by
  induction cs generalizing prev with
  | nil => rfl
  | cons c cs ih =>
    have hlast : (c :: cs).getLast?.or prev = cs.getLast?.or (some c) := by
      rw [List.getLast?_cons]
      cases cs.getLast? <;> rfl
    rw [hlast, List.cons_append]
    rcases glyph_cases c with rfl | rfl | rfl | rfl | ⟨htimes, hdivide, hpercent, hplus⟩
    · exact congrArg ('*' :: ·) (ih _)
    · exact congrArg ('/' :: ·) (ih _)
    · exact congrArg (['/', '1', '0', '0'] ++ ·) (ih _)
    · cases hfresh : isFresh prev with
      | true => rw [plainAfter_leadingPlus hfresh, plainAfter_leadingPlus hfresh, ih]
      | false => rw [plainAfter_plus hfresh, plainAfter_plus hfresh, ih, List.cons_append]
    · rw [plainAfter_cons htimes hdivide hpercent hplus,
        plainAfter_cons htimes hdivide hpercent hplus, ih, List.cons_append]

theorem plain_append (cs ds : List Char) :
    plain (cs ++ ds) = plain cs ++ plainAfter cs.getLast? ds := by
  rw [plain, plainAfter_append, Option.or_none, plain]

/-- A run of digits and points is kept. -/
theorem plainAfter_run {run : List Char} (hne : run ≠ []) (hrun : ∀ c ∈ run, isLiteralChar c)
    (prev : Option Char) : plainAfter prev run = run := by
  obtain ⟨d, -, h⟩ := plainAfter_run_append hne hrun prev []
  rw [List.append_nil] at h
  rw [h]
  exact List.append_nil run

/-- Characters without a glyph of their own stand for what they stand for in the evaluator. -/
theorem symbol?_eq {c : Char} (htimes : c ≠ '×') (hdivide : c ≠ '÷') (hpercent : c ≠ '%') :
    symbol? c = (Expression.symbol? c).map .plain := by
  unfold symbol?
  split <;> first | rfl | contradiction

/-- A symbol is no digit and no point. -/
theorem isLiteralChar_of_symbol? {c : Char} {l : Lexeme} (h : symbol? c = some l) :
    isLiteralChar c = false := by
  unfold symbol? at h
  split at h
  · rfl
  · rfl
  · rfl
  · obtain ⟨m, hm, -⟩ := Option.map_eq_some_iff.mp h
    exact Expression.isLiteralChar_of_symbol? hm

/-- Where no number goes on, none goes on in the evaluator's text. -/
theorem endsRun_plainAfter {prev : Option Char} (hprev : isFresh prev = false) {cs : List Char}
    (h : EndsRun cs) : EndsRun (plainAfter prev cs) := by
  cases cs with
  | nil => exact h
  | cons c cs =>
    intro d hd
    rcases glyph_cases c with rfl | rfl | rfl | rfl | ⟨htimes, hdivide, hpercent, hplus⟩
    · cases hd
      rfl
    · cases hd
      rfl
    · cases hd
      rfl
    · rw [plainAfter_plus hprev] at hd
      cases hd
      rfl
    · rw [plainAfter_cons htimes hdivide hpercent hplus] at hd
      cases hd
      exact h c rfl

private theorem numeralValue_hundred : numeralValue ['1', '0', '0'] = 100 := by
  decide +kernel

/-- The evaluator's text of a percent sign. -/
theorem lexes_hundred_iff {cs : List Char} (hcs : EndsRun cs) {ls : List Expression.Lexeme} :
    Expression.Lexes ('/' :: '1' :: '0' :: '0' :: cs) ls ↔
      ∃ ms, ls = Lexeme.percent.expand ++ ms ∧ Expression.Lexes cs ms := by
  have hrun : ∀ c ∈ ['1', '0', '0'], isLiteralChar c := List.all_eq_true.mp rfl
  have hnumber {ms : List Expression.Lexeme} :
      Expression.Lexes ('1' :: '0' :: '0' :: cs) ms ↔
        ∃ ns, ms = .number 100 :: ns ∧ Expression.Lexes cs ns := by
    rw [← numeralValue_hundred]
    have h := @Expression.lexes_run_append_iff ['1', '0', '0'] cs (by simp) hrun hcs ms
    rw [and_iff_right ⟨⟨'1', by simp, rfl⟩, by decide⟩] at h
    exact h
  rw [Expression.lexes_cons_iff rfl]
  constructor
  · rintro (⟨hgap, -⟩ | ⟨l, ms, hl, rfl, h⟩)
    · cases hgap
    · cases hl
      obtain ⟨ns, rfl, hns⟩ := hnumber.mp h
      exact ⟨ns, rfl, hns⟩
  · rintro ⟨ms, rfl, h⟩
    exact .inr ⟨_, _, rfl, rfl, hnumber.mpr ⟨ms, rfl, h⟩⟩

/-- The evaluator's text has the expanded lexemes of the display. -/
theorem Lexes.lexes_plainAfter {fresh : Bool} {cs : List Char} {ls : List Lexeme}
    (h : Lexes fresh cs ls) {prev : Option Char} (hprev : isFresh prev = fresh)
    (hp : PercentsApart cs) :
    Expression.Lexes (plainAfter prev cs) (ls.flatMap Lexeme.expand) := by
  induction h generalizing prev with
  | nil => exact .nil
  | @gap fresh c cs ls hc h ih =>
    have hgap := hc
    simp only [isGap, Bool.or_eq_true, beq_iff_eq] at hc
    rcases hc with rfl | rfl
    · exact .gap hgap (ih rfl hp.of_cons)
    · exact .gap hgap (ih rfl hp.of_cons)
  | leadingPlus h ih =>
    rw [plainAfter_leadingPlus hprev]
    exact ih rfl hp.of_cons
  | @symbol fresh c l cs ls hc hplus h ih =>
    rcases glyph_cases c with rfl | rfl | rfl | rfl | ⟨htimes, hdivide, hpercent, hplus⟩
    · cases hc
      exact .symbol rfl (ih rfl hp.of_cons)
    · cases hc
      exact .symbol rfl (ih rfl hp.of_cons)
    · cases hc
      have hends : EndsRun (plainAfter (some '%') cs) := endsRun_plainAfter rfl hp.endsRun
      exact (lexes_hundred_iff hends).mpr ⟨_, rfl, ih rfl hp.of_cons⟩
    · cases hc
      have hfresh : isFresh prev = false := by
        rw [hprev]
        cases fresh with
        | false => rfl
        | true => exact absurd rfl (hplus rfl)
      rw [plainAfter_plus hfresh]
      exact .symbol rfl (ih rfl hp.of_cons)
    · rw [symbol?_eq htimes hdivide hpercent] at hc
      obtain ⟨m, hm, rfl⟩ := Option.map_eq_some_iff.mp hc
      rw [plainAfter_cons htimes hdivide hpercent hplus]
      exact .symbol hm (ih rfl hp.of_cons)
  | @number fresh run rest ls literal digit point maximal h ih =>
    have hne : run ≠ [] := by
      obtain ⟨c, hc, -⟩ := digit
      exact List.ne_nil_of_mem hc
    obtain ⟨d, hfresh, heq⟩ := plainAfter_run_append hne literal prev rest
    rw [heq]
    exact .number literal digit point (endsRun_plainAfter hfresh maximal) (ih hfresh hp.of_append)

/-- Every sequence of lexemes that the evaluator's text has comes from the display. -/
theorem exists_lexes_of_plainAfter {cs : List Char} {prev : Option Char}
    {ms : List Expression.Lexeme} (h : Expression.Lexes (plainAfter prev cs) ms)
    (hp : PercentsApart cs) :
    ∃ ls, Lexes (isFresh prev) cs ls ∧ ls.flatMap Lexeme.expand = ms := by
  induction cs using Expression.splitRec generalizing prev ms with
  | nil => exact ⟨[], .nil, Expression.Lexes.unique .nil h⟩
  | mark c cs hc ih =>
    have symbolCase {d : Char} {l : Expression.Lexeme} (hl : symbol? c = some (.plain l))
        (hplus : isFresh prev → c ≠ '+') (hd : Expression.symbol? d = some l)
        (h : Expression.Lexes (d :: plainAfter (some c) cs) ms) :
        ∃ ls, Lexes (isFresh prev) (c :: cs) ls ∧ ls.flatMap Lexeme.expand = ms := by
      rw [Expression.lexes_cons_iff (Expression.isLiteralChar_of_symbol? hd)] at h
      rcases h with ⟨hgap, -⟩ | ⟨l', ns, hl', rfl, hns⟩
      · rw [Expression.isGap_of_symbol? hd] at hgap
        cases hgap
      · rw [hd] at hl'
        cases hl'
        obtain ⟨ls, hls, rfl⟩ := ih hns hp.of_cons
        exact ⟨_, .symbol hl hplus hls, rfl⟩
    rcases glyph_cases c with rfl | rfl | rfl | rfl | ⟨htimes, hdivide, hpercent, hplus⟩
    · exact symbolCase rfl (fun _ ↦ by decide) (d := '*') rfl h
    · exact symbolCase rfl (fun _ ↦ by decide) (d := '/') rfl h
    · have hends : EndsRun (plainAfter (some '%') cs) := endsRun_plainAfter rfl hp.endsRun
      obtain ⟨ns, rfl, hns⟩ := (lexes_hundred_iff hends).mp h
      obtain ⟨ls, hls, rfl⟩ := ih hns hp.of_cons
      exact ⟨_, .symbol rfl (fun _ ↦ by decide) hls, rfl⟩
    · cases hfresh : isFresh prev with
      | true =>
        rw [plainAfter_leadingPlus hfresh] at h
        obtain ⟨ls, hls, rfl⟩ := ih h hp.of_cons
        exact ⟨_, .leadingPlus hls, rfl⟩
      | false =>
        rw [plainAfter_plus hfresh] at h
        rw [hfresh] at symbolCase
        exact symbolCase rfl (by simp) (d := '+') rfl h
    · rw [plainAfter_cons htimes hdivide hpercent hplus] at h
      rcases (Expression.lexes_cons_iff hc).mp h with ⟨hgap, h⟩ | ⟨l, ns, hl, rfl, hns⟩
      · obtain ⟨ls, hls, rfl⟩ := ih h hp.of_cons
        have hopen : isFresh (some c) = false := by
          have hc' : c ≠ '(' := by
            rintro rfl
            cases hgap
          simpa [isFresh] using hc'
        rw [hopen] at hls
        exact ⟨ls, .gap hgap hls, rfl⟩
      · have hsymbol : symbol? c = some (.plain l) := by
          rw [symbol?_eq htimes hdivide hpercent, hl]
          rfl
        exact symbolCase hsymbol (fun _ ↦ hplus) hl h
  | literal run rest hne hrun hrest ih =>
    obtain ⟨d, hfresh, heq⟩ := plainAfter_run_append hne hrun prev rest
    rw [heq] at h
    obtain ⟨⟨digit, point⟩, ns, rfl, hns⟩ :=
      (Expression.lexes_run_append_iff hne hrun (endsRun_plainAfter hfresh hrest)).mp h
    obtain ⟨ls, hls, rfl⟩ := ih hns hp.of_append
    rw [hfresh] at hls
    exact ⟨_, .number hrun digit point hrest hls, rfl⟩

private theorem symbol?_opening_iff {c : Char} {l : Lexeme} (h : symbol? c = some l) :
    l = .plain .opening ↔ c = '(' := by
  constructor
  · rintro rfl
    unfold symbol? Expression.symbol? at h
    split at h
    · cases h
    · cases h
    · cases h
    · split at h <;> first | rfl | cases h
  · rintro rfl
    cases h
    rfl

private theorem symbol?_ne_leadingPlus {c : Char} : symbol? c ≠ some .leadingPlus := by
  unfold symbol?
  split
  · simp
  · simp
  · simp
  · cases Expression.symbol? c with
    | none => simp
    | some l => simp

/-- On the display a plus sign that means nothing stands only at the very beginning and right after
opening parentheses. -/
theorem Lexes.plusPlaced {fresh : Bool} {cs : List Char} {ls : List Lexeme}
    (h : Lexes fresh cs ls) : plusPlaced fresh ls := by
  induction h with
  | nil => rfl
  | gap hc h ih => exact plusPlaced_mono ih
  | leadingPlus h ih => exact ih
  | @symbol fresh c l cs ls hc hplus h ih =>
    have hopening : (l == .plain .opening) = (c == '(') := by
      rw [Bool.eq_iff_iff, beq_iff_eq, beq_iff_eq]
      exact symbol?_opening_iff hc
    cases l with
    | leadingPlus => exact absurd hc symbol?_ne_leadingPlus
    | percent =>
      rw [← hopening] at ih
      exact ih
    | plain l =>
      rw [← hopening] at ih
      exact ih
  | number literal digit point maximal h ih => exact ih

end DeskCalculator.Display
