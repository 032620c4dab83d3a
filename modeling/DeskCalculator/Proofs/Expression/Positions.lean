import DeskCalculator.Proofs.Expression.Prefixes

/-!
# What error reports quote

An error report names a place of the text. A character or a run of digits and points that belongs to
no token is quoted as it stands there, and it is the leftmost of its kind. A token that cannot stand
where it does is quoted as it stands there too if it is a symbol; if it is a number, `0` is shown in
its place.
-/

namespace DeskCalculator.Expression

/-- The maximal run of digits and points that begins at a place of a text. -/
structure IsRunAt (cs run : List Char) (pos : Nat) : Prop where
  ne_nil : run ≠ []
  maximal : (cs.drop pos).takeWhile isLiteralChar = run
  /-- The run does not begin earlier. -/
  begins : ∀ k c, k + 1 = pos → cs[k]? = some c → isLiteralChar c = false

/-- A place of a text where something belongs to no token, with the error that quotes it. -/
inductive IsFaultAt (cs : List Char) (pos : Nat) : EvalError → Prop where
  | unknownSymbol {c : Char} (stands : cs[pos]? = some c) (literal : isLiteralChar c = false)
      (gap : isGap c = false) (symbol : symbol? c = none) : IsFaultAt cs pos (.unknownSymbol c pos)
  | invalidNumber {run : List Char} (stands : IsRunAt cs run pos) (numeral : isNumeral run = false) :
      IsFaultAt cs pos (.invalidNumber run pos)

/-- The leftmost place of a text where something belongs to no token. -/
def IsFirstFault (cs : List Char) (pos : Nat) (e : EvalError) : Prop :=
  IsFaultAt cs pos e ∧ ∀ pos' e', IsFaultAt cs pos' e' → pos ≤ pos'

/-- What stands in a text where a token was read: the symbol, or a run that is a number. -/
def IsTokenAt (cs : List Char) (t : Token) : Prop :=
  match t.lexeme with
  | .number _ => ∃ run, IsRunAt cs run t.pos ∧ isNumeral run
  | l => cs[t.pos]? = some l.glyph

/-! ### Places -/

section

variable {before rest run cs : List Char} {c : Char} {pos : Nat}

/-- A run begins with a digit or a point. -/
theorem IsRunAt.exists_getElem? (h : IsRunAt cs run pos) :
    ∃ c, cs[pos]? = some c ∧ isLiteralChar c := by
  obtain ⟨c, run', hrun⟩ := List.exists_cons_of_ne_nil h.ne_nil
  have hprefix := List.takeWhile_prefix isLiteralChar (l := cs.drop pos)
  have hall := List.all_takeWhile (p := isLiteralChar) (l := cs.drop pos)
  rw [h.maximal, hrun] at hprefix hall
  obtain ⟨more, hmore⟩ := hprefix
  refine ⟨c, ?_, (Bool.and_eq_true_iff.mp hall).1⟩
  rw [← List.head?_drop, ← hmore]
  rfl

/-- A place has at most one fault. -/
theorem IsFaultAt.unique {e e' : EvalError} (h : IsFaultAt cs pos e) (h' : IsFaultAt cs pos e') :
    e = e' := by
  cases h with
  | unknownSymbol hc hliteral =>
    cases h' with
    | unknownSymbol hc' =>
      rw [hc] at hc'
      cases hc'
      rfl
    | invalidNumber hrun =>
      obtain ⟨c', hc', hliteral'⟩ := hrun.exists_getElem?
      rw [hc] at hc'
      cases hc'
      rw [hliteral] at hliteral'
      cases hliteral'
  | invalidNumber hrun =>
    cases h' with
    | unknownSymbol hc' hliteral' =>
      obtain ⟨c, hc, hliteral⟩ := hrun.exists_getElem?
      rw [hc] at hc'
      cases hc'
      rw [hliteral] at hliteral'
      cases hliteral'
    | invalidNumber hrun' =>
      obtain rfl := hrun.maximal.symm.trans hrun'.maximal
      rfl

/-- Nothing is at fault beyond the end of a text. -/
theorem IsFaultAt.lt_length {e : EvalError} (h : IsFaultAt cs pos e) : pos < cs.length := by
  cases h with
  | unknownSymbol hc => exact (List.getElem?_eq_some_iff.mp hc).1
  | invalidNumber hrun =>
    obtain ⟨c, hc, -⟩ := hrun.exists_getElem?
    exact (List.getElem?_eq_some_iff.mp hc).1

/-- A run of digits and points is maximal where no digit and no point stands before or after it. -/
private theorem isRunAt_append (hbefore : ∀ c ∈ before.getLast?, isLiteralChar c = false)
    (hne : run ≠ []) (hrun : ∀ c ∈ run, isLiteralChar c) (hrest : EndsRun rest) :
    IsRunAt (before ++ (run ++ rest)) run before.length where
  ne_nil := hne
  maximal := by rw [List.drop_left, takeWhile_isLiteralChar hrun hrest]
  begins k c hk hc := by
    rw [List.getElem?_append_left (by omega)] at hc
    apply hbefore
    rw [List.getLast?_eq_getElem?, ← hk, Nat.add_sub_cancel]
    exact hc

private theorem getElem?_append_cons : (before ++ c :: rest)[before.length]? = some c := by
  rw [List.getElem?_append_right (Nat.le_refl _), Nat.sub_self]
  rfl

/-- A character that is a token or separates tokens is no fault. -/
private theorem IsFaultAt.ne_length_of_mark {e : EvalError} (hc : isLiteralChar c = false)
    (hread : isGap c ∨ ∃ l, symbol? c = some l) (h : IsFaultAt (before ++ c :: rest) pos e) :
    pos ≠ before.length := by
  rintro rfl
  cases h with
  | unknownSymbol hd _ hgap hsymbol =>
    rw [getElem?_append_cons] at hd
    cases hd
    rcases hread with hread | ⟨l, hread⟩
    · rw [hgap] at hread
      cases hread
    · rw [hsymbol] at hread
      cases hread
  | invalidNumber hrun =>
    obtain ⟨d, hd, hliteral⟩ := hrun.exists_getElem?
    rw [getElem?_append_cons] at hd
    cases hd
    rw [hc] at hliteral
    cases hliteral

/-- No fault stands in a run of digits and points that is a number. -/
private theorem IsFaultAt.not_mem_run {e : EvalError} (hrun : ∀ c ∈ run, isLiteralChar c)
    (hrest : EndsRun rest) (hnumeral : isNumeral run) (hge : before.length ≤ pos)
    (h : IsFaultAt (before ++ (run ++ rest)) pos e) : before.length + run.length ≤ pos := by
  by_contra hlt
  obtain ⟨k, rfl⟩ := Nat.exists_eq_add_of_le hge
  have hk : k < run.length := by omega
  have hget (j : Nat) (hj : j < run.length) :
      (before ++ (run ++ rest))[before.length + j]? = some run[j] := by
    rw [List.getElem?_append_right (by omega), Nat.add_sub_cancel_left,
      List.getElem?_append_left hj, List.getElem?_eq_getElem hj]
  cases h with
  | unknownSymbol hc hliteral =>
    rw [hget k hk] at hc
    cases hc
    rw [hrun _ (List.getElem_mem hk)] at hliteral
    cases hliteral
  | invalidNumber hfound hfault =>
    cases k with
    | zero =>
      have hmaximal := hfound.maximal
      rw [Nat.add_zero, List.drop_left, takeWhile_isLiteralChar hrun hrest] at hmaximal
      rw [← hmaximal, hnumeral] at hfault
      cases hfault
    | succ k =>
      have hbegins := hfound.begins (before.length + k) run[k] rfl (hget k (by omega))
      rw [hrun _ (List.getElem_mem _)] at hbegins
      cases hbegins

end

/-! ### Reading tokens -/

/-- What reading the tokens of a text from a place on comes to: tokens that stand in the text and no
fault, or the leftmost fault. -/
def ReadsFrom (cs : List Char) (pos : Nat) : Except EvalError (List Token) → Prop
  | .ok ts => (∀ t ∈ ts, IsTokenAt cs t) ∧ ∀ fault e, pos ≤ fault → ¬ IsFaultAt cs fault e
  | .error e => ∃ first, pos ≤ first ∧ IsFaultAt cs first e ∧
      ∀ fault e', pos ≤ fault → IsFaultAt cs fault e' → first ≤ fault

section

variable {cs : List Char} {pos next : Nat} {r : Except EvalError (List Token)}

/-- What is read from a later place on is read from an earlier one if nothing between them is at
fault. -/
theorem ReadsFrom.of_le (hle : pos ≤ next)
    (hnone : ∀ fault e, pos ≤ fault → IsFaultAt cs fault e → next ≤ fault)
    (h : ReadsFrom cs next r) : ReadsFrom cs pos r := by
  cases r with
  | ok ts =>
    exact ⟨h.1, fun fault e hge hfault ↦ h.2 fault e (hnone fault e hge hfault) hfault⟩
  | error e =>
    obtain ⟨first, hfirst, hfault, hleast⟩ := h
    exact ⟨first, Nat.le_trans hle hfirst, hfault,
      fun fault e' hge hfault' ↦ hleast fault e' (hnone fault e' hge hfault') hfault'⟩

/-- A token that stands in the text is read before the others. -/
theorem ReadsFrom.cons {t : Token} (ht : IsTokenAt cs t) (h : ReadsFrom cs pos r) :
    ReadsFrom cs pos ((t :: ·) <$> r) := by
  cases r with
  | ok ts => exact ⟨List.forall_mem_cons.mpr ⟨ht, h.1⟩, h.2⟩
  | error e => exact h

/-- A fault at a place is the first one from there on. -/
theorem ReadsFrom.error {e : EvalError} (h : IsFaultAt cs pos e) : ReadsFrom cs pos (.error e) :=
  ⟨pos, Nat.le_refl pos, h, fun _ _ hge _ ↦ hge⟩

/-- A symbol stands where its token says. -/
private theorem isTokenAt_symbol {before rest : List Char} {c : Char} {l : Lexeme}
    (hl : symbol? c = some l) : IsTokenAt (before ++ c :: rest) ⟨l, before.length⟩ := by
  have hglyph : l.glyph = c ∧ ∀ x, l ≠ .number x := by
    unfold symbol? at hl
    split at hl <;> cases hl <;> exact ⟨rfl, fun x h ↦ by cases h⟩
  have hget : (before ++ c :: rest)[before.length]? = some l.glyph := by
    rw [getElem?_append_cons, hglyph.1]
  unfold IsTokenAt
  cases l with
  | number x => exact absurd rfl (hglyph.2 x)
  | _ => exact hget

/-- The tokens of a text stand in it and nothing in it is at fault, or its leftmost fault is the
error. Here `before` has been read already. -/
private theorem readsFrom_tokensFrom (before : List Char) {rest : List Char}
    (hends : (∀ c ∈ before.getLast?, isLiteralChar c = false) ∨ EndsRun rest) :
    ReadsFrom (before ++ rest) before.length (tokensFrom before.length (Piece.split rest)) := by
  induction rest using splitRec generalizing before with
  | nil =>
    have hnone : ∀ fault e, before.length ≤ fault → ¬ IsFaultAt (before ++ []) fault e := by
      intro fault e hge hfault
      have hlt := hfault.lt_length
      rw [List.append_nil] at hlt
      omega
    exact ⟨List.forall_mem_nil _, hnone⟩
  | mark c cs hc ih =>
    have hread (hc' : isGap c ∨ ∃ l, symbol? c = some l) :
        ReadsFrom (before ++ c :: cs) before.length
          (tokensFrom (before.length + 1) (Piece.split cs)) := by
      have hrest := ih (before ++ [c]) (.inl fun d hd ↦ by
        rw [List.getLast?_concat] at hd
        cases hd
        exact hc)
      rw [List.append_assoc, List.singleton_append, List.length_append, List.length_singleton]
        at hrest
      refine hrest.of_le (Nat.le_succ _) fun fault e hge hfault ↦ ?_
      have hne := hfault.ne_length_of_mark hc hc'
      omega
    rw [Piece.split_cons_mark hc, tokensFrom]
    split
    · next hgap => exact hread (.inl hgap)
    · next hgap =>
      split
      · next l hl => exact (hread (.inr ⟨l, hl⟩)).cons (isTokenAt_symbol hl)
      · next hnone =>
        exact .error (.unknownSymbol getElem?_append_cons hc (by simpa using hgap) hnone)
  | literal run rest hne hrun hrest ih =>
    have hbefore : ∀ c ∈ before.getLast?, isLiteralChar c = false := by
      rcases hends with hbefore | hends
      · exact hbefore
      · obtain ⟨c, run', rfl⟩ := List.exists_cons_of_ne_nil hne
        have hfirst := hends c rfl
        rw [hrun c List.mem_cons_self] at hfirst
        cases hfirst
    have hstands := isRunAt_append hbefore hne hrun hrest
    have hread : (readNumeral? run).isSome = isNumeral run := by
      rw [readNumeral?]
      split <;> simp_all
    rw [Piece.split_literal_append hne hrun hrest, tokensFrom]
    split
    · next x hx =>
      have hnumeral : isNumeral run := by rw [← hread, hx, Option.isSome_some]
      have hrest' := ih (before ++ run) (.inr hrest)
      rw [List.append_assoc, List.length_append] at hrest'
      have hinside : ∀ fault e, before.length ≤ fault →
          IsFaultAt (before ++ (run ++ rest)) fault e → before.length + run.length ≤ fault :=
        fun fault e hge hfault ↦ hfault.not_mem_run hrun hrest hnumeral hge
      exact (hrest'.of_le (Nat.le_add_right _ _) hinside).cons ⟨run, hstands, hnumeral⟩
    · next hnone =>
      have hfault : isNumeral run = false := by rw [← hread, hnone, Option.isSome_none]
      exact .error (.invalidNumber hstands hfault)

end

/-! ### Error reports -/

/-- A text is cut into tokens that stand in it exactly if nothing in it is at fault, and otherwise
its leftmost fault is the error. -/
theorem readsFrom_tokenize (cs : List Char) : ReadsFrom cs 0 (tokenize cs) :=
  readsFrom_tokensFrom [] (.inl fun c hc ↦ by cases hc)

/-- The leftmost fault of a text is what keeps it from being cut into tokens. -/
private theorem tokenize_eq_error_iff {cs : List Char} {e : EvalError} :
    tokenize cs = .error e ↔ ∃ pos, IsFirstFault cs pos e := by
  have hread := readsFrom_tokenize cs
  constructor
  · intro h
    rw [h] at hread
    obtain ⟨first, -, hfault, hleast⟩ := hread
    exact ⟨first, hfault, fun pos' e' hfault' ↦ hleast pos' e' (Nat.zero_le _) hfault'⟩
  · rintro ⟨pos, hfault, hleast⟩
    cases htokens : tokenize cs with
    | ok ts =>
      rw [htokens] at hread
      exact absurd hfault (hread.2 pos e (Nat.zero_le _))
    | error e' =>
      rw [htokens] at hread
      obtain ⟨first, -, hfirst, hleast'⟩ := hread
      obtain rfl := Nat.le_antisymm (hleast first e' hfirst) (hleast' pos e (Nat.zero_le _) hfault)
      rw [hfault.unique hfirst]

/-- An evaluation fails for something that belongs to no token exactly if the text cannot be cut
into tokens because of it. -/
private theorem evaluate_eq_error_iff_tokenize {cs : List Char} {e : EvalError}
    (he : (∃ c pos, e = .unknownSymbol c pos) ∨ ∃ run pos, e = .invalidNumber run pos) :
    evaluate cs = .error e ↔ tokenize cs = .error e := by
  rw [evaluate]
  cases htokens : tokenize cs with
  | error e' => exact ⟨fun h ↦ by cases h; rfl, fun h ↦ by cases h; rfl⟩
  | ok ts =>
    have hread : evaluateTokens ts ≠ .error e := by
      intro h
      by_cases hne : ts = []
      · subst hne
        cases h
        rcases he with ⟨c, pos, he⟩ | ⟨run, pos, he⟩ <;> cases he
      · rcases evaluateTokens_error hne h with rfl | rfl | ⟨found, pos, rfl⟩
        all_goals rcases he with ⟨c, pos, he⟩ | ⟨run, pos, he⟩ <;> cases he
    exact ⟨fun h ↦ absurd h hread, fun h ↦ by cases h⟩

/-- The place that an error names. -/
def EvalError.pos? : EvalError → Option Nat
  | unexpectedToken _ pos => some pos
  | unknownSymbol _ pos => some pos
  | invalidNumber _ pos => some pos
  | _ => none

private theorem IsFaultAt.pos?_eq {cs : List Char} {pos : Nat} {e : EvalError}
    (h : IsFaultAt cs pos e) : e.pos? = some pos := by
  cases h with
  | unknownSymbol _ _ _ _ => rfl
  | invalidNumber _ _ => rfl

/-- Such a failure is the leftmost fault of the text, at the place that it names. -/
theorem evaluate_eq_error_iff_isFirstFault {cs : List Char} {pos : Nat} {e : EvalError}
    (he : (∃ c, e = .unknownSymbol c pos) ∨ ∃ run, e = .invalidNumber run pos) :
    evaluate cs = .error e ↔ IsFirstFault cs pos e := by
  have hpos : e.pos? = some pos := by
    rcases he with ⟨c, rfl⟩ | ⟨run, rfl⟩
    · rfl
    · rfl
  rw [evaluate_eq_error_iff_tokenize (he.imp (fun ⟨c, h⟩ ↦ ⟨c, pos, h⟩)
    fun ⟨run, h⟩ ↦ ⟨run, pos, h⟩), tokenize_eq_error_iff]
  constructor
  · rintro ⟨pos', hfault, hleast⟩
    have heq := hfault.pos?_eq
    rw [hpos] at heq
    cases heq
    exact ⟨hfault, hleast⟩
  · exact fun h ↦ ⟨pos, h⟩

/-- The token that cannot stand where it does stands in the text. -/
private theorem exists_isTokenAt_of_evaluate {cs : List Char} {found : Char} {pos : Nat}
    (h : evaluate cs = .error (.unexpectedToken found pos)) :
    ∃ t : Token, IsTokenAt cs t ∧ found = t.lexeme.glyph ∧ pos = t.pos := by
  have hread := readsFrom_tokenize cs
  rw [evaluate] at h
  cases htokens : tokenize cs with
  | error e =>
    rw [htokens] at h hread
    cases h
    obtain ⟨first, -, hfault, -⟩ := hread
    cases hfault
  | ok ts =>
    rw [htokens] at h hread
    obtain ⟨k, q, hk, hfound, hpos, -⟩ :=
      State.exists_of_unexpectedToken (run_of_unexpectedToken h)
    exact ⟨ts[k], hread.1 _ (List.getElem_mem hk), hfound, hpos⟩

/-- It is quoted as the symbol that it is, or by a zero if it is a number. -/
theorem quote_of_unexpectedToken {cs : List Char} {found : Char} {pos : Nat}
    (h : evaluate cs = .error (.unexpectedToken found pos)) :
    (symbol? found).isSome ∧ cs[pos]? = some found ∨
      found = '0' ∧ ∃ run, IsRunAt cs run pos ∧ isNumeral run := by
  obtain ⟨⟨l, pos⟩, ht, rfl, rfl⟩ := exists_isTokenAt_of_evaluate h
  cases l with
  | number x => exact .inr ⟨rfl, ht⟩
  | add op => cases op <;> exact .inl ⟨rfl, ht⟩
  | mul op => cases op <;> exact .inl ⟨rfl, ht⟩
  | opening => exact .inl ⟨rfl, ht⟩
  | closing => exact .inl ⟨rfl, ht⟩

/-- Every place that an error names is in the text. An unexpected token is quoted by the symbol that
stands there, or by `0` where a number begins. An unknown symbol and a malformed number are quoted
as they stand there, and such an error is the leftmost fault of the text. -/
theorem error_reports_quote (cs : List Char) :
    (∀ e pos, evaluate cs = .error e → e.pos? = some pos → pos < cs.length) ∧
    (∀ found pos, evaluate cs = .error (.unexpectedToken found pos) →
      (symbol? found).isSome ∧ cs[pos]? = some found ∨
        found = '0' ∧ ∃ run, IsRunAt cs run pos ∧ isNumeral run) ∧
    (∀ c pos, evaluate cs = .error (.unknownSymbol c pos) ↔
      IsFirstFault cs pos (.unknownSymbol c pos)) ∧
    ∀ run pos, evaluate cs = .error (.invalidNumber run pos) ↔
      IsFirstFault cs pos (.invalidNumber run pos) := by
  have hsymbol : ∀ c pos, evaluate cs = .error (.unknownSymbol c pos) ↔
      IsFirstFault cs pos (.unknownSymbol c pos) :=
    fun c pos ↦ evaluate_eq_error_iff_isFirstFault (.inl ⟨c, rfl⟩)
  have hnumber : ∀ run pos, evaluate cs = .error (.invalidNumber run pos) ↔
      IsFirstFault cs pos (.invalidNumber run pos) :=
    fun run pos ↦ evaluate_eq_error_iff_isFirstFault (.inr ⟨run, rfl⟩)
  refine ⟨fun e pos he hpos ↦ ?_, fun found pos h ↦ quote_of_unexpectedToken h, hsymbol, hnumber⟩
  cases e with
  | unexpectedToken found pos' =>
    cases hpos
    rcases quote_of_unexpectedToken he with ⟨-, hc⟩ | ⟨-, run, hrun, -⟩
    · exact (List.getElem?_eq_some_iff.mp hc).1
    · obtain ⟨c, hc, -⟩ := hrun.exists_getElem?
      exact (List.getElem?_eq_some_iff.mp hc).1
  | unknownSymbol c pos' =>
    cases hpos
    exact ((hsymbol c pos).mp he).1.lt_length
  | invalidNumber run pos' =>
    cases hpos
    exact ((hnumber run pos).mp he).1.lt_length
  | _ => cases hpos

/-- A parenthesis right after a group, and a run with two points before an unknown symbol. -/
theorem error_reports_quote_after_group :
    let report : EvalError := .unexpectedToken '(' 4
    evaluate "(1) (2".toList = .error report ∧ 4 < "(1) (2".toList.length ∧
      IsFirstFault "2*1.5.^é".toList 2 (.invalidNumber "1.5.".toList 2) := by
  intro report
  have hreport : evaluate "(1) (2".toList = .error report := by decide +kernel
  have hfault : evaluate "2*1.5.^é".toList = .error (.invalidNumber "1.5.".toList 2) := by
    decide +kernel
  obtain ⟨hinside, -⟩ := error_reports_quote "(1) (2".toList
  obtain ⟨-, -, -, hnumber⟩ := error_reports_quote "2*1.5.^é".toList
  exact ⟨hreport, hinside report 4 hreport rfl, (hnumber _ 2).mp hfault⟩

/-- A number that cannot stand where it does is not quoted. -/
theorem number_not_quoted :
    evaluate "1 5".toList = .error (.unexpectedToken '0' 2) ∧ "1 5".toList[2]? = some '5' := by
  decide +kernel

end DeskCalculator.Expression
