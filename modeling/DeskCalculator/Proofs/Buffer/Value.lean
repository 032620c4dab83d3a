import DeskCalculator.Diagnosis.Diagnose
import DeskCalculator.Proofs.Buffer.Typed
import DeskCalculator.Proofs.Display.Prefixes

/-!
# What a typed buffer computes to

The evaluator's text of a buffer that is the beginning of an expression has lexemes that are one
too, with the same place at its end. So a typed buffer can fail only at its end or by a result that
is not finite, and a repair of it can be typed as well.
-/

namespace DeskCalculator.Buffer

open Expression (Lexes Shape isLiteralChar plain plainAfter compute)

/-- What is due at a place inside `n` open parentheses. -/
def Place.shape (n : Nat) : Place → Shape
  | operand => .operand n
  | whole | fraction | closed => .operator n

namespace Viable

variable {b : List Char} {p : Place} {n : Nat}

/-- A number at the end stands where an operand is due. -/
private theorem exists_number (h : Viable b p n) (hp : p = .whole ∨ p = .fraction) :
    ∃ a run, b = a ++ run ∧ Viable a .operand n ∧ (∀ c ∈ run, isLiteralChar c) ∧
      (∃ c ∈ run, c.isDigit) ∧ run.count '.' = if p = .fraction then 1 else 0 := by
  induction h with
  | nil => simp at hp
  | @firstDigit b n c h hc =>
    have hne : c ≠ '.' := ne_of_isDigit hc rfl
    exact ⟨b, [c], rfl, h, by simp [isLiteralChar_of_isDigit hc], ⟨c, by simp, hc⟩, by simp [hne]⟩
  | @nextDigit b p n c h _ hc ih =>
    have hne : c ≠ '.' := ne_of_isDigit hc rfl
    obtain ⟨a, run, rfl, ha, hrun, ⟨d, hd, hdigit⟩, hcount⟩ := ih hp
    refine ⟨a, run ++ [c], List.append_assoc .., ha, ?_, ⟨d, by simp [hd], hdigit⟩, ?_⟩
    · simp only [List.mem_append, List.mem_singleton]
      rintro e (he | rfl)
      · exact hrun e he
      · exact isLiteralChar_of_isDigit hc
    · rw [List.count_append, hcount]
      simp [hne]
  | point h ih =>
    obtain ⟨a, run, rfl, ha, hrun, ⟨d, hd, hdigit⟩, hcount⟩ := ih (.inl rfl)
    refine ⟨a, run ++ ['.'], List.append_assoc .., ha, ?_, ⟨d, by simp [hd], hdigit⟩, ?_⟩
    · simp only [List.mem_append, List.mem_singleton]
      rintro e (he | rfl)
      · exact hrun e he
      · rfl
    · rw [List.count_append, hcount]
      rfl
  | negation h => simp at hp
  | opening h => simp at hp
  | operator h => simp at hp
  | closing h => simp at hp

end Viable

/-- Some lexemes of the evaluator's text lead to a shape. -/
def Reads (b : List Char) (q : Shape) : Prop :=
  ∃ ls, Lexes (plain b) ls ∧ (Shape.operand 0).run ls = some q ∧ (b ≠ [] → ls ≠ [])

namespace Reads

variable {b : List Char} {q : Shape}

/-- A symbol at the end is one more lexeme. -/
theorem symbol (h : Reads b q) {c d : Char} {l : Expression.Lexeme} {q' : Shape}
    (hplain : plainAfter b.getLast? [c] = [d]) (hd : Expression.symbol? d = some l)
    (hstep : q.step l = some q') : Reads (b ++ [c]) q' := by
  obtain ⟨ls, hls, hrun, -⟩ := h
  refine ⟨ls ++ [l], Display.lexes_plain_symbol hls hplain hd, ?_, by simp⟩
  rw [Shape.run_append, hrun]
  exact congrArg (· >>= fun s ↦ some s) hstep

/-- A number at the end is one more lexeme. -/
theorem number {n : Nat} (h : Reads b (.operand n)) {run : List Char}
    (hliteral : ∀ c ∈ run, isLiteralChar c) (hdigit : ∃ c ∈ run, c.isDigit)
    (hpoint : run.count '.' ≤ 1) : Reads (b ++ run) (.operator n) := by
  obtain ⟨ls, hls, hrun, -⟩ := h
  refine ⟨ls ++ [.number (Expression.numeralValue run)],
    Display.lexes_plain_number hls hrun hliteral hdigit hpoint, ?_, by simp⟩
  rw [Shape.run_append, hrun]
  rfl

end Reads

/-- After a value an operator is due. -/
theorem Place.shape_of_ne {p : Place} (hp : p ≠ .operand) (n : Nat) : p.shape n = .operator n := by
  cases p with
  | operand => exact absurd rfl hp
  | whole => rfl
  | fraction => rfl
  | closed => rfl

/-- A plus sign means nothing only where a value is wanted. -/
private theorem wantsValue_of_isFresh {b : List Char} (h : Display.isFresh b.getLast?) :
    wantsValue b := by
  rw [wantsValue]
  revert h
  cases b.getLast? with
  | none => exact fun _ ↦ rfl
  | some c =>
    intro h
    have hc : (c == '(') = true := h
    rw [Option.all_some, hc, Bool.or_true]

/-- A plus sign after a value means something. -/
private theorem Viable.isFresh_eq_false {b : List Char} {p : Place} {n : Nat} (h : Viable b p n)
    (hp : p ≠ .operand) : Display.isFresh b.getLast? = false := by
  rw [← Bool.not_eq_true]
  intro hfresh
  exact hp (h.wantsValue_iff.mp (wantsValue_of_isFresh hfresh))

/-- The lexemes of a buffer lead to the place at its end. -/
theorem Viable.reads {b : List Char} {p : Place} {n : Nat} (h : Viable b p n) :
    Reads b (p.shape n) := by
  by_cases hp : p = .whole ∨ p = .fraction
  · obtain ⟨a, run, rfl, ha, hliteral, hdigit, hcount⟩ := h.exists_number hp
    have hlt : a.length < (a ++ run).length := by
      obtain ⟨c, hc, -⟩ := hdigit
      rw [List.length_append]
      exact Nat.lt_add_of_pos_right (List.length_pos_of_mem hc)
    have hnumber := ha.reads.number hliteral hdigit (by rw [hcount]; split <;> omega)
    rcases hp with rfl | rfl
    · exact hnumber
    · exact hnumber
  · cases h with
    | nil => exact ⟨[], .nil, rfl, fun hne ↦ absurd rfl hne⟩
    | firstDigit h hc => simp at hp
    | nextDigit h hnumber hc => exact absurd hnumber hp
    | point h => simp at hp
    | negation h => exact h.reads.symbol (d := '-') rfl rfl rfl
    | opening h => exact h.reads.symbol (d := '(') rfl rfl rfl
    | @operator b p n c h hvalue hc =>
      have hreads := h.reads
      rw [Place.shape_of_ne hvalue] at hreads
      rcases isOperatorGlyph_cases hc with rfl | rfl | rfl | rfl
      · exact hreads.symbol (Display.plainAfter_plus (h.isFresh_eq_false hvalue) []) rfl rfl
      · exact hreads.symbol (d := '-') rfl rfl rfl
      · exact hreads.symbol (d := '*') rfl rfl rfl
      · exact hreads.symbol (d := '/') rfl rfl rfl
    | @closing b p n h hvalue =>
      have hreads := h.reads
      rw [Place.shape_of_ne hvalue] at hreads
      exact hreads.symbol (d := ')') rfl rfl rfl
termination_by b.length

/-! ### Computing -/

/-- A text without a percent sign holds no misplaced one. -/
theorem hasMisplacedPercentAfter_eq_false {cs : List Char} (h : '%' ∉ cs) (prev : Option Char) :
    Expression.hasMisplacedPercentAfter prev cs = false := by
  induction cs generalizing prev with
  | nil => rfl
  | cons c cs ih =>
    obtain ⟨hc, hcs⟩ := not_or.mp (mt List.mem_cons.mpr h)
    have hne : (c == '%') = false := by simpa using Ne.symm hc
    rw [Expression.hasMisplacedPercentAfter, ih hcs, Expression.isMisplacedPercent, hne]
    rfl

namespace Viable

variable {b : List Char} {p : Place} {n : Nat}

theorem percent_not_mem (h : Viable b p n) : '%' ∉ b := by
  intro hmem
  rcases h.typable_of_mem hmem with h | h | h | h <;> cases h

/-- A buffer can fail only by a result that is not finite and, unless it is a complete expression,
at its end. -/
theorem compute_cases (h : Viable b p n) (hne : b ≠ []) :
    (∃ x, compute b = .ok x) ∨ compute b = .error (.invalidExpression .nonFinite) ∨
      (compute b = .error (.invalidExpression .unexpectedEnd) ∧ (p = .operand ∨ n ≠ 0)) := by
  have hrelabel (e : Expression.EvalError) : Expression.relabel b e = .invalidExpression e := by
    rw [Expression.relabel, Expression.hasMisplacedPercent,
      hasMisplacedPercentAfter_eq_false h.percent_not_mem, Bool.and_false]
    rfl
  obtain ⟨ls, hls, hrun, hls_ne⟩ := h.reads
  unfold compute
  rcases Expression.evaluate_cases hls (hls_ne hne) hrun with ⟨x, hx⟩ | hx | ⟨hx, hshape⟩
  · exact .inl ⟨x, by rw [hx]; rfl⟩
  · exact .inr (.inl (by rw [hx, Except.mapError, hrelabel]))
  · refine .inr (.inr ⟨by rw [hx, Except.mapError, hrelabel], ?_⟩)
    by_cases hp : p = .operand
    · exact .inl hp
    · rw [Place.shape_of_ne hp] at hshape
      exact .inr fun hn ↦ hshape (by rw [hn])

end Viable

end DeskCalculator.Buffer
