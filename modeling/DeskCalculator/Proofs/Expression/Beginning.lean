import DeskCalculator.Proofs.Expression.Acceptance

/-!
# Evaluating the beginning of an expression

The lexemes of a text can be the beginning of an expression without being all of one. Such a text
can fail only at its end or by a result that is not finite.
-/

namespace DeskCalculator.Expression

/-- Two texts together have the lexemes of both, unless a number at the end of the first goes on in
the second. -/
theorem Lexes.append {cs ds : List Char} {ls ms : List Lexeme} (h : Lexes cs ls) (h' : Lexes ds ms)
    (hends : (∃ x, ls.getLast? = some (.number x)) → EndsRun ds) : Lexes (cs ++ ds) (ls ++ ms) := by
  induction h with
  | nil => exact h'
  | gap hc h ih => exact .gap hc (ih hends)
  | symbol hc h ih =>
    refine .symbol hc (ih fun ⟨x, hx⟩ ↦ hends ⟨x, ?_⟩)
    rw [List.getLast?_cons, hx, Option.getD_some]
  | @number run rest ls literal digit point maximal h ih =>
    have hrest : EndsRun (rest ++ ds) := by
      cases rest with
      | nil =>
        obtain rfl := Lexes.unique .nil h
        exact hends ⟨_, rfl⟩
      | cons c rest => exact maximal
    rw [List.append_assoc]
    refine .number literal digit point hrest (ih fun ⟨x, hx⟩ ↦ hends ⟨x, ?_⟩)
    rw [List.getLast?_cons, hx, Option.getD_some]

/-- The lexemes of a text fall apart before a character that is no digit and no point. -/
theorem Lexes.exists_of_append_cons {cs ds : List Char} {c : Char} {ls : List Lexeme}
    (hc : isLiteralChar c = false) (h : Lexes (cs ++ c :: ds) ls) :
    ∃ ms ns, Lexes cs ms ∧ Lexes (c :: ds) ns ∧ ls = ms ++ ns := by
  induction cs using splitRec generalizing ls with
  | nil => exact ⟨[], ls, .nil, h, rfl⟩
  | mark d cs hd ih =>
    rw [List.cons_append, lexes_cons_iff hd] at h
    rcases h with ⟨hgap, h⟩ | ⟨l, ks, hl, rfl, h⟩
    · obtain ⟨ms, ns, hms, hns, rfl⟩ := ih h
      exact ⟨ms, ns, .gap hgap hms, hns, rfl⟩
    · obtain ⟨ms, ns, hms, hns, rfl⟩ := ih h
      exact ⟨l :: ms, ns, .symbol hl hms, hns, rfl⟩
  | literal run rest hne hrun hrest ih =>
    have hends : EndsRun (rest ++ c :: ds) := by
      cases rest with
      | nil =>
        intro d hd
        cases hd
        exact hc
      | cons d rest => exact hrest
    rw [List.append_assoc, lexes_run_append_iff hne hrun hends] at h
    obtain ⟨⟨digit, point⟩, ks, rfl, h⟩ := h
    obtain ⟨ms, ns, hms, hns, rfl⟩ := ih h
    exact ⟨_ :: ms, ns, .number hrun digit point hrest hms, hns, rfl⟩

/-- The lexemes of a text fall apart at a symbol, which is one of them. -/
theorem Lexes.exists_of_append_symbol {cs ds : List Char} {c : Char} {l : Lexeme}
    {ls : List Lexeme} (hc : symbol? c = some l) (h : Lexes (cs ++ c :: ds) ls) :
    ∃ ms ns, Lexes cs ms ∧ Lexes ds ns ∧ ls = ms ++ l :: ns := by
  obtain ⟨ms, ns, hms, hns, rfl⟩ := h.exists_of_append_cons (isLiteralChar_of_symbol? hc)
  rcases (lexes_cons_iff (isLiteralChar_of_symbol? hc)).mp hns with ⟨hgap, -⟩ | ⟨m, ks, hm, rfl, hks⟩
  · rw [isGap_of_symbol? hc] at hgap
    cases hgap
  · rw [hc] at hm
    cases hm
    exact ⟨ms, ks, hms, hks, rfl⟩

/-- Where an operand is due no number stands before. -/
theorem Shape.getLast?_ne_number {s : Shape} {ls : List Lexeme} {n : Nat}
    (h : s.run ls = some (.operand n)) (x : Float) : ls.getLast? ≠ some (.number x) := by
  intro hlast
  obtain ⟨ls, rfl⟩ := List.getLast?_eq_some_iff.mp hlast
  rw [Shape.run_append] at h
  obtain ⟨q, -, hq⟩ := Option.bind_eq_some_iff.mp h
  cases q with
  | operand m => cases hq
  | operator m => cases hq

/-- A lexeme that an operand must follow. -/
theorem Shape.operand_of_step {q s : Shape} {l : Lexeme} (h : q.step l = some s)
    (hl : (∃ op, l = .add op) ∨ (∃ op, l = .mul op) ∨ l = .opening) : ∃ n, s = .operand n := by
  cases q with
  | operand n =>
    rcases hl with ⟨op, rfl⟩ | ⟨op, rfl⟩ | rfl
    · cases op with
      | plus => cases h
      | minus => exact ⟨n, (Option.some.inj h).symm⟩
    · cases h
    · exact ⟨n + 1, (Option.some.inj h).symm⟩
  | operator n =>
    rcases hl with ⟨op, rfl⟩ | ⟨op, rfl⟩ | rfl
    · exact ⟨n, (Option.some.inj h).symm⟩
    · exact ⟨n, (Option.some.inj h).symm⟩
    · cases h

/-! ### Parentheses -/

/-- How many parentheses are open. -/
def Shape.depth : Shape → Nat
  | operand n => n
  | operator n => n

/-- One lexeme opens or closes at most one parenthesis. -/
private theorem Shape.depth_step {q s : Shape} {l : Lexeme} (h : q.step l = some s) :
    q.depth + [l].count .opening = s.depth + [l].count .closing := by
  cases q with
  | operand n =>
    cases l with
    | number x =>
      cases h
      rfl
    | add op =>
      cases op with
      | plus => cases h
      | minus =>
        cases h
        rfl
    | mul op => cases h
    | opening =>
      cases h
      rfl
    | closing => cases h
  | operator n =>
    cases l with
    | number x => cases n <;> cases h
    | add op =>
      cases h
      rfl
    | mul op =>
      cases h
      rfl
    | opening => cases n <;> cases h
    | closing =>
      cases n with
      | zero => cases h
      | succ n =>
        cases h
        rfl

/-- The open parentheses are those that have been opened and not closed. -/
theorem Shape.depth_run {q s : Shape} {ls : List Lexeme} (h : q.run ls = some s) :
    q.depth + ls.count .opening = s.depth + ls.count .closing := by
  induction ls generalizing q with
  | nil =>
    cases h
    rfl
  | cons l ls ih =>
    obtain ⟨q', hstep, hrun⟩ := Option.bind_eq_some_iff.mp h
    have hfirst := depth_step hstep
    have hrest := ih hrun
    rw [← List.singleton_append, List.count_append, List.count_append]
    omega

/-- A symbol stands for itself and nothing else does. -/
private theorem symbol?_eq_some_iff {c d : Char} {l : Lexeme} (hc : symbol? c = some l) :
    symbol? d = some l ↔ d = c := by
  constructor
  · intro hd
    unfold symbol? at hc hd
    split at hc <;> cases hc <;> split at hd <;> first | rfl | cases hd
  · rintro rfl
    exact hc

/-- Each symbol of a text is one lexeme. -/
theorem Lexes.count_eq {c : Char} {l : Lexeme} (hc : symbol? c = some l) {cs : List Char}
    {ls : List Lexeme} (h : Lexes cs ls) : cs.count c = ls.count l := by
  induction h with
  | nil => rfl
  | @gap d cs ls hgap h ih =>
    have hne : d ≠ c := by
      rintro rfl
      rw [isGap_of_symbol? hc] at hgap
      cases hgap
    rw [List.count_cons_of_ne hne, ih]
  | @symbol d m cs ls hd h ih =>
    have hiff : m = l ↔ d = c := by
      rw [← symbol?_eq_some_iff hc, hd, Option.some.injEq]
    rw [List.count_cons, List.count_cons, ih]
    simp only [beq_iff_eq, hiff]
  | @number run rest ls literal digit point maximal h ih =>
    have hrun : c ∉ run := by
      intro hmem
      have hliteral := literal c hmem
      rw [isLiteralChar_of_symbol? hc] at hliteral
      cases hliteral
    have hne : Lexeme.number (numeralValue run) ≠ l := by
      rintro rfl
      unfold symbol? at hc
      split at hc <;> cases hc
    rw [List.count_append, List.count_eq_zero_of_not_mem hrun, Nat.zero_add,
      List.count_cons_of_ne hne, ih]

/-! ### Results -/

/-- What an evaluation can come to at the end of the text. -/
theorem State.finish_cases (s : State) :
    (∃ x, s.finish = .ok x) ∨ s.finish = .error .nonFinite ∨
      (s.finish = .error .unexpectedEnd ∧ s.shape ≠ .operator 0) := by
  cases s with
  | operand p outer => exact .inr (.inr ⟨rfl, by simp [State.shape]⟩)
  | operator d outer =>
    rw [State.finish]
    rcases d.total_cases with ⟨x, hx⟩ | hx
    · rw [hx, ok_bind]
      cases outer with
      | nil =>
        rcases finite_cases x with hfinite | hfinite
        · exact .inl ⟨x, hfinite⟩
        · exact .inr (.inl hfinite)
      | cons p outer => exact .inr (.inr ⟨rfl, by simp [State.shape]⟩)
    · rw [hx]
      exact .inr (.inl rfl)

/-- Reading tokens can fail only at a token that stands where it cannot, or by a result that is not
finite. -/
theorem State.run_error {s : State} {ts : List Token} {e : EvalError} (h : s.run ts = .error e) :
    e = .nonFinite ∨ ∃ found pos, e = .unexpectedToken found pos := by
  induction ts generalizing s with
  | nil => cases h
  | cons t ts ih =>
    rw [State.run] at h
    cases s.stepOutcome t with
    | goesOn hs hshape =>
      rw [hs, ok_bind] at h
      exact ih h
    | nonFinite hs =>
      rw [hs] at h
      cases h
      exact .inl rfl
    | unexpected hs hshape =>
      rw [hs] at h
      cases h
      exact .inr ⟨_, _, rfl⟩

/-- What can be wrong with tokens, if there are any. -/
theorem evaluateTokens_error {ts : List Token} (hne : ts ≠ []) {e : EvalError}
    (h : evaluateTokens ts = .error e) :
    e = .nonFinite ∨ e = .unexpectedEnd ∨ ∃ found pos, e = .unexpectedToken found pos := by
  rw [evaluateTokens, if_neg (by simpa using hne)] at h
  cases hrun : State.start.run ts with
  | error e' =>
    rw [hrun] at h
    cases h
    rcases State.run_error hrun with hfinite | htoken
    · exact .inl hfinite
    · exact .inr (.inr htoken)
  | ok s =>
    rw [hrun, ok_bind] at h
    rcases s.finish_cases with ⟨x, hx⟩ | hx | ⟨hx, -⟩
    · rw [hx] at h
      cases h
    · rw [hx] at h
      cases h
      exact .inl rfl
    · rw [hx] at h
      cases h
      exact .inr (.inl rfl)

/-- Tokens that are the beginning of an expression can fail only by a result that is not finite and,
unless they are a complete expression, at their end. -/
private theorem evaluateTokens_cases {ts : List Token} {q : Shape} (hne : ts ≠ [])
    (h : (Shape.operand 0).run (ts.map Token.lexeme) = some q) :
    (∃ x, evaluateTokens ts = .ok x) ∨ evaluateTokens ts = .error .nonFinite ∨
      (evaluateTokens ts = .error .unexpectedEnd ∧ q ≠ .operator 0) := by
  rw [evaluateTokens, if_neg (by simpa using hne)]
  rcases State.run_of_shape (s := .start) h with ⟨s, hs, rfl⟩ | hs
  · rw [hs]
    exact s.finish_cases
  · rw [hs]
    exact .inr (.inl rfl)

/-- A text whose lexemes are the beginning of an expression can fail only by a result that is not
finite and, unless they are a complete expression, at its end. -/
theorem evaluate_cases {cs : List Char} {ls : List Lexeme} {q : Shape} (hcs : Lexes cs ls)
    (hne : ls ≠ []) (h : (Shape.operand 0).run ls = some q) :
    (∃ x, evaluate cs = .ok x) ∨ evaluate cs = .error .nonFinite ∨
      (evaluate cs = .error .unexpectedEnd ∧ q ≠ .operator 0) := by
  obtain ⟨ts, rfl, heq⟩ := hcs.exists_evaluate_eq
  rw [heq]
  exact evaluateTokens_cases (by rintro rfl; exact hne rfl) h

end DeskCalculator.Expression
