import DeskCalculator.Diagnosis.Problem
import DeskCalculator.Proofs.Display.Meaning
import DeskCalculator.Proofs.Expression.Beginning

/-!
# What is due inside a display text

A display text leads to a `Shape` if the lexemes of its evaluator's text do. What is due at its end
can be seen from the last character that is not blank, and how many parentheses are open from their
counts. A text with a value leads to a shape before each of its symbols, and the symbol can stand
there.
-/

namespace DeskCalculator.Display

open Diagnosis (solid? endsValue)
open Expression (EndsRun Shape evaluate isGap isLiteralChar isOperatorChar plain plainAfter)
open Text (isBlank)

/-! ### Blanks -/

theorem isBlank_of_isGap {c : Char} (h : isGap c) : isBlank c := by
  simp only [isGap, Bool.or_eq_true, beq_iff_eq] at h
  rcases h with rfl | rfl <;> decide

theorem isLiteralChar_of_isBlank {c : Char} (h : isBlank c) : isLiteralChar c = false := by
  rw [← Bool.not_eq_true]
  intro hliteral
  rw [isLiteralChar, Bool.or_eq_true, beq_iff_eq] at hliteral
  rcases hliteral with hdigit | rfl
  · simp only [Char.isDigit, Bool.and_eq_true, decide_eq_true_eq, ge_iff_le,
      UInt32.le_iff_toNat_le] at hdigit
    have hc : 48 ≤ c.toNat ∧ c.toNat ≤ 57 := hdigit
    simp only [isBlank, Bool.or_eq_true, Bool.and_eq_true, decide_eq_true_eq, beq_iff_eq] at h
    omega
  · cases h

/-- No blank is a symbol. -/
private theorem symbol?_of_isBlank {c : Char} (h : isBlank c) : Expression.symbol? c = none := by
  unfold Expression.symbol?
  split <;> first | rfl | cases h

/-- A blank is kept. -/
theorem plainAfter_blank {c : Char} (h : isBlank c) (prev : Option Char) (cs : List Char) :
    plainAfter prev (c :: cs) = c :: plainAfter (some c) cs := by
  apply plainAfter_cons
  all_goals
    rintro rfl
    cases h

theorem plainAfter_blanks {w : List Char} (hw : ∀ c ∈ w, isBlank c) (prev : Option Char) :
    plainAfter prev w = w := by
  induction w generalizing prev with
  | nil => rfl
  | cons c w ih =>
    rw [plainAfter_blank (hw c (by simp)), ih fun d hd ↦ hw d (List.mem_cons_of_mem c hd)]

/-- Blanks that separate lexemes are no lexemes. -/
theorem lexes_of_blanks {w cs : List Char} {ls : List Expression.Lexeme} (hw : ∀ c ∈ w, isBlank c)
    (h : Expression.Lexes (w ++ cs) ls) : Expression.Lexes cs ls := by
  induction w with
  | nil => exact h
  | cons c w ih =>
    have hc : isBlank c := hw c (by simp)
    rw [List.cons_append, Expression.lexes_cons_iff (isLiteralChar_of_isBlank hc)] at h
    rcases h with ⟨-, h⟩ | ⟨l, ms, hl, -⟩
    · exact ih (fun d hd ↦ hw d (List.mem_cons_of_mem c hd)) h
    · rw [symbol?_of_isBlank hc] at hl
      cases hl

/-- The first character that is not blank stands after blanks. -/
theorem exists_of_any_solid? {cs : List Char} {p : Char → Bool} (h : (solid? cs).any p) :
    ∃ w c rest, cs = w ++ c :: rest ∧ (∀ d ∈ w, isBlank d) ∧ p c := by
  cases hc : solid? cs with
  | none =>
    rw [hc] at h
    cases h
  | some c =>
    rw [hc, Option.any_some] at h
    obtain ⟨-, w, rest, rfl, hw⟩ := List.find?_eq_some_iff_append.mp hc
    exact ⟨w, c, rest, rfl, fun d hd ↦ by simpa using hw d hd, h⟩

/-- Blanks are passed over. -/
theorem solid?_blanks_append {w : List Char} (hw : ∀ c ∈ w, isBlank c) (cs : List Char) :
    solid? (w ++ cs) = solid? cs := by
  have hnone : w.find? (fun c ↦ !isBlank c) = none := by simpa using hw
  rw [solid?, List.find?_append, hnone, Option.none_or, solid?]

theorem solid?_cons {c : Char} (hc : isBlank c = false) (cs : List Char) :
    solid? (c :: cs) = some c := by
  rw [solid?, List.find?_cons, hc]
  rfl

/-- Blanks at the end are passed over from there. -/
theorem solid?_reverse {before w : List Char} {c : Char} (hc : isBlank c = false)
    (hw : ∀ d ∈ w, isBlank d) : solid? (before ++ c :: w).reverse = some c := by
  rw [List.reverse_append, List.reverse_cons, List.append_assoc,
    solid?_blanks_append fun d hd ↦ hw d (List.mem_reverse.mp hd)]
  exact solid?_cons hc _

/-! ### Shapes inside a text -/

/-- The evaluator's text of a display text has lexemes that lead to a shape. -/
def Leads (cs : List Char) (q : Shape) : Prop :=
  ∃ ls, Expression.Lexes (plain cs) ls ∧ (Shape.operand 0).run ls = some q

/-- A text with a value is complete. -/
theorem leads_of_evaluate {cs : List Char} {x : Float} (h : evaluate (plain cs) = .ok x) :
    Leads cs (.operator 0) := by
  obtain ⟨ls, hls⟩ := Expression.exists_lexes_of_evaluate h
  obtain ⟨ts, rfl, heq⟩ := hls.exists_evaluate_eq
  exact ⟨_, hls, Expression.shape_of_evaluateTokens (heq ▸ h)⟩

namespace Leads

variable {b before after : List Char} {c d : Char} {q s : Shape}

/-- Before each symbol of a text there is a shape, and the symbol can stand there. -/
theorem exists_step {t : List Char} {l : Expression.Lexeme} (h : Leads (before ++ c :: after) s)
    (hplain : plainAfter before.getLast? (c :: after) = d :: t)
    (hd : Expression.symbol? d = some l) :
    ∃ q q' ls, Leads before q ∧ q.step l = some q' ∧ Expression.Lexes t ls ∧ q'.run ls = some s := by
  obtain ⟨ls, hls, hrun⟩ := h
  rw [plain_append, hplain] at hls
  obtain ⟨ms, ns, hms, hns, rfl⟩ := hls.exists_of_append_symbol hd
  rw [Shape.run_append] at hrun
  obtain ⟨q, hq, hrest⟩ := Option.bind_eq_some_iff.mp hrun
  obtain ⟨q', hq', hrun'⟩ := Option.bind_eq_some_iff.mp hrest
  exact ⟨q, q', ns, ⟨ms, hms, hq⟩, hq', hns, hrun'⟩

/-- A character that is kept and is no digit and no point separates lexemes or is one. -/
theorem isGap_or_symbol? (h : Leads (before ++ c :: after) s) (hc : isLiteralChar c = false)
    (hplain : plainAfter before.getLast? (c :: after) = c :: plainAfter (some c) after) :
    isGap c ∨ (Expression.symbol? c).isSome := by
  obtain ⟨ls, hls, -⟩ := h
  rw [plain_append, hplain] at hls
  obtain ⟨ms, ns, -, hns, -⟩ := hls.exists_of_append_cons hc
  rcases (Expression.lexes_cons_iff hc).mp hns with ⟨hgap, -⟩ | ⟨l, ks, hl, -⟩
  · exact .inl hgap
  · exact .inr (by rw [hl]; rfl)

/-- The last symbol of a text is the last step. -/
theorem exists_last_step {l : Expression.Lexeme} (h : Leads (b ++ [c]) s)
    (hplain : plainAfter b.getLast? [c] = [d]) (hd : Expression.symbol? d = some l) :
    ∃ q, Leads b q ∧ q.step l = some s := by
  obtain ⟨q, q', ls, hb, hstep, hls, hrun⟩ := h.exists_step hplain hd
  obtain rfl := hls.unique .nil
  cases hrun
  exact ⟨q, hb, hstep⟩

/-- A blank at the end changes nothing. -/
theorem of_blank (h : Leads (b ++ [c]) s) (hc : isBlank c) : Leads b s := by
  obtain ⟨ls, hls, hrun⟩ := h
  rw [plain_append, plainAfter_blank hc] at hls
  obtain ⟨ms, ns, hms, hns, rfl⟩ := hls.exists_of_append_cons (isLiteralChar_of_isBlank hc)
  have hnil : Expression.Lexes [] ns := lexes_of_blanks (w := [c]) (by simpa using hc) hns
  obtain rfl := hnil.unique .nil
  rw [List.append_nil] at hrun
  exact ⟨ms, hms, hrun⟩

/-- A plus sign that means nothing changes nothing. -/
private theorem of_leadingPlus (h : Leads (b ++ ['+']) s) (hfresh : isFresh b.getLast?) :
    Leads b s := by
  obtain ⟨ls, hls, hrun⟩ := h
  rw [plain_append, plainAfter_leadingPlus hfresh, plainAfter, List.append_nil] at hls
  exact ⟨ls, hls, hrun⟩

end Leads

/-! ### Longer texts -/

section

variable {b run : List Char} {c d : Char} {l : Expression.Lexeme} {ls : List Expression.Lexeme}

/-- A symbol at the end is one more lexeme. -/
theorem lexes_plain_symbol (h : Expression.Lexes (plain b) ls)
    (hplain : plainAfter b.getLast? [c] = [d]) (hd : Expression.symbol? d = some l) :
    Expression.Lexes (plain (b ++ [c])) (ls ++ [l]) := by
  have hends : EndsRun [d] := by
    intro e he
    cases he
    exact Expression.isLiteralChar_of_symbol? hd
  rw [plain_append, hplain]
  exact h.append (.symbol hd .nil) fun _ ↦ hends

/-- A number at the end is one more lexeme where an operand is due. -/
theorem lexes_plain_number (h : Expression.Lexes (plain b) ls) {n : Nat}
    (hdue : (Shape.operand 0).run ls = some (.operand n)) (hrun : ∀ c ∈ run, isLiteralChar c)
    (hdigit : ∃ c ∈ run, c.isDigit) (hpoint : run.count '.' ≤ 1) :
    Expression.Lexes (plain (b ++ run)) (ls ++ [.number (Expression.numeralValue run)]) := by
  have hne : run ≠ [] := by
    obtain ⟨c, hc, -⟩ := hdigit
    exact List.ne_nil_of_mem hc
  have hnumber : Expression.Lexes (run ++ []) [.number (Expression.numeralValue run)] :=
    .number hrun hdigit hpoint (by intro c hc; cases hc) .nil
  rw [List.append_nil] at hnumber
  rw [plain_append, plainAfter_run hne hrun]
  exact h.append hnumber fun ⟨x, hx⟩ ↦ absurd hx (Shape.getLast?_ne_number hdue x)

end

namespace Leads

variable {b run : List Char} {c d : Char} {q s : Shape} {n : Nat}

/-- A symbol at the end is one more step. -/
theorem symbol {l : Expression.Lexeme} (h : Leads b q) (hplain : plainAfter b.getLast? [c] = [d])
    (hd : Expression.symbol? d = some l) (hstep : q.step l = some s) : Leads (b ++ [c]) s := by
  obtain ⟨ls, hls, hrun⟩ := h
  refine ⟨ls ++ [l], lexes_plain_symbol hls hplain hd, ?_⟩
  rw [Shape.run_append, hrun]
  exact congrArg (· >>= fun s ↦ some s) hstep

/-- A plus sign that means nothing can be put at the end. -/
theorem leadingPlus (h : Leads b q) (hfresh : isFresh b.getLast?) : Leads (b ++ ['+']) q := by
  obtain ⟨ls, hls, hrun⟩ := h
  refine ⟨ls, ?_, hrun⟩
  rwa [plain_append, plainAfter_leadingPlus hfresh, plainAfter, List.append_nil]

/-- A number can be put where an operand is due. -/
theorem number (h : Leads b (.operand n)) (hrun : ∀ c ∈ run, isLiteralChar c)
    (hdigit : ∃ c ∈ run, c.isDigit) (hpoint : run.count '.' ≤ 1) : Leads (b ++ run) (.operator n) := by
  obtain ⟨ls, hls, hdue⟩ := h
  refine ⟨_, lexes_plain_number hls hdue hrun hdigit hpoint, ?_⟩
  rw [Shape.run_append, hdue]
  rfl

/-- A percent sign can be put after a value. Digits right after it belong to its number `100`. -/
theorem percent (h : Leads b (.operator n)) (hrun : ∀ c ∈ run, isLiteralChar c)
    (hpoint : run.count '.' ≤ 1) : Leads (b ++ '%' :: run) (.operator n) := by
  obtain ⟨ls, hls, hdue⟩ := h
  have hplain : plainAfter (some '%') run = run := by
    cases run with
    | nil => rfl
    | cons c run => exact plainAfter_run (by simp) hrun _
  have hnumber : Expression.Lexes (('1' :: '0' :: '0' :: run) ++ [])
      [.number (Expression.numeralValue ('1' :: '0' :: '0' :: run))] := by
    refine .number ?_ ⟨'1', by simp, rfl⟩ (by simpa using hpoint) (fun c hc ↦ by cases hc) .nil
    simpa [isLiteralChar] using hrun
  rw [List.append_nil] at hnumber
  have hlexes : Expression.Lexes (plain (b ++ '%' :: run))
      (ls ++ [.mul .divide, .number (Expression.numeralValue ('1' :: '0' :: '0' :: run))]) := by
    rw [plain_append, plainAfter, hplain]
    refine hls.append (.symbol rfl hnumber) fun _ c hc ↦ ?_
    cases hc
    rfl
  refine ⟨_, hlexes, ?_⟩
  rw [Shape.run_append, hdue]
  rfl

end Leads

/-! ### The end of a text -/

/-- The lexemes of a text that ends with a digit or a point end with a number. -/
private theorem exists_getLast?_number {cs : List Char} {c : Char} {ls : List Expression.Lexeme}
    (hc : isLiteralChar c) (h : Expression.Lexes (cs ++ [c]) ls) :
    ∃ x, ls.getLast? = some (.number x) := by
  have hwhole {run : List Char} (hrun : ∀ d ∈ run, isLiteralChar d) {ls : List Expression.Lexeme}
      (h : Expression.Lexes ((run ++ [c]) ++ []) ls) : ∃ x, ls.getLast? = some (.number x) := by
    have hall : ∀ d ∈ run ++ [c], isLiteralChar d := by
      simpa [or_imp, forall_and, hc] using hrun
    obtain ⟨-, ms, rfl, hms⟩ :=
      (Expression.lexes_run_append_iff (by simp) hall fun d hd ↦ by cases hd).mp h
    obtain rfl := hms.unique .nil
    exact ⟨_, rfl⟩
  have hlater {l : Expression.Lexeme} {ms : List Expression.Lexeme}
      (h : ∃ x, ms.getLast? = some (.number x)) : ∃ x, (l :: ms).getLast? = some (.number x) := by
    obtain ⟨x, hx⟩ := h
    exact ⟨x, by rw [List.getLast?_cons, hx, Option.getD_some]⟩
  induction cs using Expression.splitRec generalizing ls with
  | nil => exact @hwhole [] (by simp) ls h
  | mark d cs hd ih =>
    rw [List.cons_append, Expression.lexes_cons_iff hd] at h
    rcases h with ⟨-, h⟩ | ⟨l, ms, -, rfl, h⟩
    · exact ih h
    · exact hlater (ih h)
  | literal run rest hne hrun hrest ih =>
    cases rest with
    | nil => exact hwhole hrun (by simpa using h)
    | cons d rest =>
      have hends : EndsRun (d :: rest ++ [c]) := hrest
      rw [List.append_assoc, Expression.lexes_run_append_iff hne hrun hends] at h
      obtain ⟨-, ms, rfl, hms⟩ := h
      exact hlater (ih hms)

namespace Leads

variable {b : List Char} {c : Char} {q : Shape}

/-- After a number an operator is due. -/
theorem operator_of_number (h : Leads b q) {cs : List Char} (hc : isLiteralChar c)
    (hplain : plain b = cs ++ [c]) : ∃ n, q = .operator n := by
  obtain ⟨ls, hls, hrun⟩ := h
  rw [hplain] at hls
  obtain ⟨x, hx⟩ := exists_getLast?_number hc hls
  cases q with
  | operand n => exact absurd hx (Shape.getLast?_ne_number hrun x)
  | operator n => exact ⟨n, rfl⟩

/-- After a character that ends a value an operator is due, blanks passed over. -/
theorem operator_of_endsValue (h : Leads b q) (hb : (solid? b.reverse).any endsValue) :
    ∃ n, q = .operator n := by
  induction b using List.reverseRecOn with
  | nil => cases hb
  | append_singleton b c ih =>
    rw [List.reverse_append, List.reverse_singleton, List.singleton_append] at hb
    by_cases hblank : isBlank c
    · rw [solid?, List.find?_cons, hblank] at hb
      exact ih (h.of_blank hblank) hb
    · rw [solid?_cons (by simpa using hblank), Option.any_some, endsValue, Bool.or_eq_true,
        Bool.or_eq_true, beq_iff_eq, beq_iff_eq] at hb
      rcases hb with (hliteral | rfl) | rfl
      · exact h.operator_of_number hliteral (by rw [plain_append, plainAfter_literal hliteral]; rfl)
      · obtain ⟨p, -, hstep⟩ := h.exists_last_step (d := ')') rfl rfl
        cases p with
        | operand n => cases hstep
        | operator n =>
          cases n with
          | zero => cases hstep
          | succ n => exact ⟨n, (Option.some.inj hstep).symm⟩
      · have hplain : plain (b ++ ['%']) = (plain b ++ ['/', '1', '0']) ++ ['0'] := by
          rw [plain_append, List.append_assoc]
          rfl
        exact h.operator_of_number rfl hplain

/-- At the beginning, after an operator and after an opening parenthesis an operand is due, blanks
passed over. -/
theorem operand_of_isOperatorChar (h : Leads b q)
    (hb : (solid? b.reverse).all fun c ↦ isOperatorChar c || c == '(') : ∃ n, q = .operand n := by
  induction b using List.reverseRecOn with
  | nil =>
    obtain ⟨ls, hls, hrun⟩ := h
    obtain rfl := hls.unique .nil
    exact ⟨0, (Option.some.inj hrun).symm⟩
  | append_singleton b c ih =>
    rw [List.reverse_append, List.reverse_singleton, List.singleton_append] at hb
    have hsymbol {d : Char} {l : Expression.Lexeme} (hplain : plainAfter b.getLast? [c] = [d])
        (hd : Expression.symbol? d = some l)
        (hl : (∃ op, l = .add op) ∨ (∃ op, l = .mul op) ∨ l = .opening) : ∃ n, q = .operand n := by
      obtain ⟨p, -, hstep⟩ := h.exists_last_step hplain hd
      exact Shape.operand_of_step hstep hl
    by_cases hblank : isBlank c
    · rw [solid?, List.find?_cons, hblank] at hb
      exact ih (h.of_blank hblank) hb
    · rw [solid?_cons (by simpa using hblank), Option.all_some, Bool.or_eq_true, beq_iff_eq,
        isOperatorChar] at hb
      simp only [Bool.or_eq_true, beq_iff_eq] at hb
      rcases hb with (((((rfl | rfl) | rfl) | rfl) | rfl) | rfl) | rfl
      · cases hfresh : isFresh b.getLast? with
        | true =>
          -- The sign means nothing, so an operand was due before it.
          refine ih (h.of_leadingPlus hfresh) ?_
          rw [isFresh] at hfresh
          rcases List.eq_nil_or_concat b with rfl | ⟨a, c, rfl⟩
          · rfl
          · rw [List.concat_eq_append] at hfresh ⊢
            rw [List.getLast?_concat, Option.all_some, beq_iff_eq] at hfresh
            subst hfresh
            rw [solid?_reverse (w := []) (by decide) (by simp)]
            rfl
        | false => exact hsymbol (plainAfter_plus hfresh []) rfl (.inl ⟨_, rfl⟩)
      · exact hsymbol (d := '-') rfl rfl (.inl ⟨_, rfl⟩)
      · exact hsymbol (d := '*') rfl rfl (.inr (.inl ⟨_, rfl⟩))
      · exact hsymbol (d := '/') rfl rfl (.inr (.inl ⟨_, rfl⟩))
      · exact hsymbol (d := '*') rfl rfl (.inr (.inl ⟨_, rfl⟩))
      · exact hsymbol (d := '/') rfl rfl (.inr (.inl ⟨_, rfl⟩))
      · exact hsymbol (d := '(') rfl rfl (.inr (.inr rfl))

end Leads

/-- Where an operand is due a symbol that begins none cannot stand. -/
theorem not_leads_of_operand {before after t : List Char} {c d : Char} {s : Shape}
    {l : Expression.Lexeme}
    (hb : (solid? before.reverse).all fun c ↦ isOperatorChar c || c == '(')
    (hplain : plainAfter before.getLast? (c :: after) = d :: t)
    (hd : Expression.symbol? d = some l) (hl : ∀ n, (Shape.operand n).step l = none) :
    ¬ Leads (before ++ c :: after) s := by
  intro h
  obtain ⟨q, q', -, hq, hstep, -⟩ := h.exists_step hplain hd
  obtain ⟨n, rfl⟩ := hq.operand_of_isOperatorChar hb
  rw [hl n] at hstep
  cases hstep

/-! ### Parentheses -/

/-- Parentheses are kept. -/
theorem count_plainAfter {c : Char} (hc : c = '(' ∨ c = ')') (prev : Option Char)
    (cs : List Char) : (plainAfter prev cs).count c = cs.count c := by
  have hskip {d : Char} (hd : d ≠ '(' ∧ d ≠ ')') (ds : List Char) :
      (d :: ds).count c = ds.count c := by
    apply List.count_cons_of_ne
    rcases hc with rfl | rfl
    · exact hd.1
    · exact hd.2
  induction cs generalizing prev with
  | nil => rfl
  | cons d cs ih =>
    rcases glyph_cases d with rfl | rfl | rfl | rfl | ⟨htimes, hdivide, hpercent, hplus⟩
    · rw [plainAfter, hskip (by decide), hskip (by decide), ih]
    · rw [plainAfter, hskip (by decide), hskip (by decide), ih]
    · rw [plainAfter, hskip (by decide), hskip (by decide), hskip (by decide), hskip (by decide),
        hskip (by decide), ih]
    · cases hfresh : isFresh prev with
      | true => rw [plainAfter_leadingPlus hfresh, hskip (by decide), ih]
      | false => rw [plainAfter_plus hfresh, hskip (by decide), hskip (by decide), ih]
    · rw [plainAfter_cons htimes hdivide hpercent hplus, List.count_cons, List.count_cons, ih]

/-- The parentheses of a text are counted by its shape. -/
theorem Leads.count_opening {b : List Char} {q : Shape} (h : Leads b q) :
    b.count '(' = b.count ')' + q.depth := by
  obtain ⟨ls, hls, hrun⟩ := h
  have hopening := hls.count_eq (c := '(') rfl
  have hclosing := hls.count_eq (c := ')') rfl
  rw [plain, count_plainAfter (.inl rfl)] at hopening
  rw [plain, count_plainAfter (.inr rfl)] at hclosing
  have hdepth := Shape.depth_run hrun
  rw [Shape.depth, Nat.zero_add] at hdepth
  omega

end DeskCalculator.Display
