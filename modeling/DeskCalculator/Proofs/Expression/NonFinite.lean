import DeskCalculator.Proofs.Expression.Prefixes

/-!
# Results that are not finite and faults

An operand is used as soon as it is complete, so a result that is not finite hides every fault of
the text after it. What is behind such a result is a beginning of the text: with what is open there
closed, it is a sentence of the grammar without a finite value. A fault of the lexemes comes before
any result, and a text that is a sentence has no fault.
-/

namespace DeskCalculator.Expression

/-! ### Lexemes come first -/

/-- The tokens of pieces are those of the first ones and, from the place after these on, those of
the others. -/
private theorem tokensFrom_append (pos : Nat) (ps qs : List Piece) :
    tokensFrom pos (ps ++ qs) = tokensFrom pos ps >>= fun us ↦
      (us ++ ·) <$> tokensFrom (pos + (ps.flatMap Piece.chars).length) qs := by
  induction ps generalizing pos with
  | nil =>
    change tokensFrom pos qs = (fun vs ↦ vs) <$> tokensFrom pos qs
    cases tokensFrom pos qs <;> rfl
  | cons p ps ih =>
    have hplace (n : Nat) : pos + (n + (ps.flatMap Piece.chars).length) =
        pos + n + (ps.flatMap Piece.chars).length := (Nat.add_assoc ..).symm
    have hcons (t : Token) (r : Except EvalError (List Token))
        (q : Except EvalError (List Token)) :
        (t :: ·) <$> (r >>= fun us ↦ (us ++ ·) <$> q) =
          (t :: ·) <$> r >>= fun us ↦ (us ++ ·) <$> q := by
      cases r with
      | error e => rfl
      | ok us => cases q <;> rfl
    cases p with
    | literal run =>
      rw [List.cons_append, tokensFrom, tokensFrom, List.flatMap_cons, List.length_append,
        Piece.chars, hplace, ih]
      cases readNumeral? run with
      | none => rfl
      | some x => exact hcons _ _ _
    | mark c =>
      rw [List.cons_append, tokensFrom, tokensFrom, List.flatMap_cons, List.length_append,
        Piece.chars, List.length_singleton, hplace, ih]
      split
      · rfl
      · cases symbol? c with
        | none => rfl
        | some l => exact hcons _ _ _

/-- What is wrong with the pieces of a text is a fault. -/
private theorem isSyntax_of_tokensFrom {pos : Nat} {pieces : List Piece} {e : EvalError}
    (h : tokensFrom pos pieces = .error e) : e.isSyntax := by
  have hcons {t : Token} {r : Except EvalError (List Token)} (h : (t :: ·) <$> r = .error e) :
      r = .error e := by
    cases r with
    | error e' =>
      cases h
      rfl
    | ok us => cases h
  induction pieces generalizing pos with
  | nil => cases h
  | cons p pieces ih =>
    cases p with
    | literal run =>
      rw [tokensFrom] at h
      split at h
      · exact ih (hcons h)
      · cases h
        rfl
    | mark c =>
      rw [tokensFrom] at h
      split at h
      · exact ih h
      · split at h
        · exact ih (hcons h)
        · cases h
          rfl

/-- A text that comes to a result that is not finite has tokens. -/
theorem exists_tokenize_of_nonFinite {cs : List Char} (h : evaluate cs = .error .nonFinite) :
    ∃ ts, tokenize cs = .ok ts ∧ evaluateTokens ts = .error .nonFinite := by
  rw [evaluate] at h
  cases hts : tokenize cs with
  | error e =>
    rw [hts] at h
    cases h
    cases isSyntax_of_tokensFrom hts
  | ok ts =>
    rw [hts] at h
    exact ⟨ts, rfl, h⟩

/-! ### What is closed -/

/-- Tokens that close `n` parentheses. -/
def closingTokens (n : Nat) : List Token :=
  List.replicate n ⟨.closing, 0⟩

@[simp] theorem map_lexeme_closingTokens (n : Nat) :
    (closingTokens n).map Token.lexeme = List.replicate n .closing :=
  List.map_replicate

namespace State

/-- A level whose total is not finite fails when it is closed. -/
theorem result_closingTokens {d : Level} (hd : d.total = .error .nonFinite)
    (outer : List Pending) :
    (operator d outer).result (closingTokens outer.length) = .error .nonFinite := by
  cases outer with
  | nil =>
    change d.total >>= _ = _
    rw [hd, error_bind]
  | cons p outer =>
    apply result_cons_error
    rw [step_closing, hd, error_bind]

/-- A step comes to a result that is not finite because the level that it leaves has none, or after
it has read an operand. -/
private theorem step_nonFinite_cases {s : State} {t : Token} (h : s.step t = .error .nonFinite) :
    (∃ d outer, s = operator d outer ∧ d.total = .error .nonFinite) ∨
      ∃ n, s.shape.step t.lexeme = some (.operator n) := by
  rcases t with ⟨l, pos⟩
  cases s with
  | operand p outer =>
    cases l with
    | number x => exact .inr ⟨outer.length, rfl⟩
    | add op => cases op <;> cases h
    | mul op => cases h
    | opening => cases h
    | closing => cases h
  | operator d outer =>
    rcases d.total_cases with ⟨x, hx⟩ | hx
    · -- Only what waits outside a parenthesis is left to fail.
      cases l with
      | closing =>
        cases outer with
        | nil =>
          change (d.total >>= _) = _ at h
          rw [hx] at h
          cases h
        | cons p outer => exact .inr ⟨outer.length, rfl⟩
      | mul op => cases h
      | add op =>
        rw [step_add, hx] at h
        cases h
      | number x | opening =>
        cases outer <;>
        · change (d.total >>= _) = _ at h
          rw [hx] at h
          cases h
    · exact .inl ⟨d, outer, rfl, hx⟩

/-- An evaluation that comes to a result that is not finite does so on a beginning of the tokens
with what is open there closed. -/
private theorem exists_prefix_of_nonFinite {s : State} {ts : List Token}
    (h : s.result ts = .error .nonFinite) :
    ∃ us n, us <+: ts ∧ s.shape.run (us.map Token.lexeme) = some (.operator n) ∧
      s.result (us ++ closingTokens n) = .error .nonFinite := by
  induction ts generalizing s with
  | nil =>
    cases s with
    | operand p outer => cases h
    | operator d outer =>
      refine ⟨[], outer.length, List.nil_prefix, rfl, ?_⟩
      rcases d.total_cases with ⟨x, hx⟩ | hx
      · cases outer with
        | nil => exact h
        | cons p outer =>
          change (d.total >>= _) = _ at h
          rw [hx] at h
          cases h
      · exact result_closingTokens hx outer
  | cons t ts ih =>
    cases s.stepOutcome t with
    | goesOn hs hshape =>
      rw [result_cons hs] at h
      obtain ⟨us, n, hprefix, hrun, hresult⟩ := ih h
      refine ⟨t :: us, n, List.cons_prefix_cons.mpr ⟨rfl, hprefix⟩, ?_, ?_⟩
      · rw [List.map_cons, Shape.run, hshape]
        exact hrun
      · rw [List.cons_append, result_cons hs]
        exact hresult
    | nonFinite hs =>
      rcases step_nonFinite_cases hs with ⟨d, outer, rfl, hd⟩ | ⟨n, hn⟩
      · exact ⟨[], outer.length, List.nil_prefix, rfl, result_closingTokens hd outer⟩
      · refine ⟨[t], n, List.cons_prefix_cons.mpr ⟨rfl, List.nil_prefix⟩, ?_, ?_⟩
        · rw [List.map_singleton, Shape.run, hn]
          rfl
        · exact result_cons_error hs _
    | unexpected hs =>
      rw [result_cons_error hs] at h
      cases h

end State

/-- There are tokens to evaluate. -/
theorem evaluateTokens_of_ne_nil {ts : List Token} (hne : ts ≠ []) :
    evaluateTokens ts = State.start.result ts := by
  rw [evaluateTokens, if_neg (by simpa using hne), State.result]

/-- A text that comes to a result that is not finite has a beginning that is a sentence without a
finite value once what is open there is closed. -/
theorem exists_sentence_of_nonFinite {cs : List Char} (h : evaluate cs = .error .nonFinite) :
    ∃ ls, Lexes cs ls ∧ ∃ ms n, ms <+: ls ∧
      ∃ e : Expr, e.lexemes = ms ++ List.replicate n .closing ∧
        e.value >>= finite = .error .nonFinite := by
  obtain ⟨ts, hts, hvalue⟩ := exists_tokenize_of_nonFinite h
  refine ⟨_, exists_tokenize_iff.mp ⟨ts, hts, rfl⟩, ?_⟩
  have hne : ts ≠ [] := by
    rintro rfl
    cases hvalue
  rw [evaluateTokens_of_ne_nil hne] at hvalue
  obtain ⟨us, n, hprefix, hshape, hresult⟩ := State.exists_prefix_of_nonFinite hvalue
  have hclosed : (us ++ closingTokens n).map Token.lexeme =
      us.map Token.lexeme ++ List.replicate n .closing := by
    rw [List.map_append, map_lexeme_closingTokens]
  have hrun : (Shape.operand 0).run (us.map Token.lexeme ++ List.replicate n .closing) =
      some (.operator 0) := by
    rw [Shape.run_append, show (Shape.operand 0).run (us.map Token.lexeme) = _ from hshape]
    exact (Shape.operator n).run_completion
  obtain ⟨e, he⟩ := Expr.exists_lexemes_eq hrun
  refine ⟨us.map Token.lexeme, n, hprefix.map Token.lexeme, e, he, ?_⟩
  have hne' : us ++ closingTokens n ≠ [] := by
    intro hnil
    rw [← hclosed, hnil] at hrun
    cases hrun
  rw [← evaluateTokens_eq (hclosed.trans he.symm), evaluateTokens_of_ne_nil hne']
  exact hresult

/-! ### Faults -/

/-- A sentence has no fault. -/
theorem isSyntax_eq_false_of_sentence {cs : List Char} {e : Expr} (h : Lexes cs e.lexemes)
    {err : EvalError} (herr : evaluate cs = .error err) : err.isSyntax = false := by
  have hshape := e.shape_run 0
  have hne : e.lexemes ≠ [] := by
    intro hnil
    rw [hnil] at hshape
    cases hshape
  rcases evaluate_cases h hne hshape with ⟨x, hx⟩ | hx | ⟨-, hx⟩
  · rw [hx] at herr
    cases herr
  · rw [hx] at herr
    cases herr
    rfl
  · exact absurd rfl hx

/-- A factor operator where an operand is due is a fault, unless the tokens before it come to a
result that is not finite. -/
private theorem evaluateTokens_append_mul {us vs : List Token} {op : MulOp} {pos : Nat}
    (hdue : ∀ q, (Shape.operand 0).run (us.map Token.lexeme) = some q → ∃ n, q = .operand n) :
    evaluateTokens (us ++ ⟨.mul op, pos⟩ :: vs) = .error .nonFinite ↔
      evaluateTokens us = .error .nonFinite := by
  rw [evaluateTokens, if_neg (by simp), State.run_append, evaluateTokens]
  cases hrun : State.start.run us with
  | error e =>
    have hne : us ≠ [] := by
      rintro rfl
      cases hrun
    rw [if_neg (by simpa using hne)]
    exact Iff.rfl
  | ok s =>
    obtain ⟨n, hn⟩ := hdue s.shape (State.shape_of_run hrun)
    cases s with
    | operator d outer => cases hn
    | operand p outer =>
      constructor
      · intro h
        cases h
      · intro h
        split at h <;> cases h

/-- Where an operand is due before a factor operator, a text comes to a result that is not finite
exactly if it has lexemes and what stands before the operator comes to one. -/
theorem evaluate_append_mul {cs ds : List Char} {c : Char} {op : MulOp}
    (hc : symbol? c = some (.mul op))
    (hdue : ∀ ls q, Lexes cs ls → (Shape.operand 0).run ls = some q → ∃ n, q = .operand n) :
    evaluate (cs ++ c :: ds) = .error .nonFinite ↔
      (∃ ls, Lexes (cs ++ c :: ds) ls) ∧ evaluate cs = .error .nonFinite := by
  have hsplit (ts : List Token) (hts : tokenize (cs ++ c :: ds) = .ok ts) :
      ∃ us vs pos, tokenize cs = .ok us ∧ ts = us ++ ⟨.mul op, pos⟩ :: vs := by
    rw [tokenize, Piece.split_append_mark (isLiteralChar_of_symbol? hc), tokensFrom_append] at hts
    rw [tokenize]
    cases hus : tokensFrom 0 (Piece.split cs) with
    | error e =>
      rw [hus] at hts
      cases hts
    | ok us =>
      rw [hus, ok_bind, tokensFrom, if_neg (by simp [isGap_of_symbol? hc]), hc] at hts
      generalize tokensFrom _ (Piece.split ds) = r at hts
      cases r with
      | error e => cases hts
      | ok vs =>
        cases hts
        exact ⟨us, vs, _, rfl, rfl⟩
  have hiff (ts : List Token) (hts : tokenize (cs ++ c :: ds) = .ok ts) :
      evaluate (cs ++ c :: ds) = .error .nonFinite ↔ evaluate cs = .error .nonFinite := by
    obtain ⟨us, vs, pos, hus, rfl⟩ := hsplit ts hts
    rw [evaluate, hts, ok_bind, evaluate, hus, ok_bind]
    exact evaluateTokens_append_mul fun q ↦ hdue _ q (exists_tokenize_iff.mp ⟨us, hus, rfl⟩)
  constructor
  · intro h
    obtain ⟨ts, hts, -⟩ := exists_tokenize_of_nonFinite h
    exact ⟨⟨_, exists_tokenize_iff.mp ⟨ts, hts, rfl⟩⟩, (hiff ts hts).mp h⟩
  · rintro ⟨⟨ls, hls⟩, h⟩
    obtain ⟨ts, hts, -⟩ := exists_tokenize_iff.mpr hls
    exact (hiff ts hts).mpr h

end DeskCalculator.Expression
