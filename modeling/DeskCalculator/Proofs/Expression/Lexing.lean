import DeskCalculator.Expression.Evaluate

/-!
# What the lexemes of a text are

`Lexes` says which lexemes a text has, without saying how they are found: spaces and tabs stand for
nothing, a symbol stands for itself, and a maximal run of digits and points is one number. The
tokens that `tokenize` finds are exactly these. Texts are taken apart by `splitRec`, which follows
the maximal runs.
-/

namespace DeskCalculator.Expression

/-- A text does not go on with a digit or a point. -/
def EndsRun (cs : List Char) : Prop :=
  ∀ c ∈ cs.head?, isLiteralChar c = false

/-- The lexemes of a text. -/
inductive Lexes : List Char → List Lexeme → Prop where
  | nil : Lexes [] []
  /-- A space or a tab between lexemes. -/
  | gap {c : Char} {cs : List Char} {ls : List Lexeme} (hc : isGap c) (h : Lexes cs ls) :
      Lexes (c :: cs) ls
  | symbol {c : Char} {l : Lexeme} {cs : List Char} {ls : List Lexeme} (hc : symbol? c = some l)
      (h : Lexes cs ls) : Lexes (c :: cs) (l :: ls)
  /-- A maximal run of digits and points with at least one digit and at most one point. -/
  | number {run rest : List Char} {ls : List Lexeme} (literal : ∀ c ∈ run, isLiteralChar c)
      (digit : ∃ c ∈ run, c.isDigit) (point : run.count '.' ≤ 1) (maximal : EndsRun rest)
      (h : Lexes rest ls) : Lexes (run ++ rest) (.number (numeralValue run) :: ls)

/-- A symbol is no digit and no point. -/
theorem isLiteralChar_of_symbol? {c : Char} {l : Lexeme} (h : symbol? c = some l) :
    isLiteralChar c = false := by
  unfold symbol? at h
  split at h <;> first | rfl | cases h

/-- A symbol is no space and no tab. -/
theorem isGap_of_symbol? {c : Char} {l : Lexeme} (h : symbol? c = some l) : isGap c = false := by
  unfold symbol? at h
  split at h <;> first | rfl | cases h

/-- A space or a tab is no digit and no point. -/
theorem isLiteralChar_of_isGap {c : Char} (h : isGap c) : isLiteralChar c = false := by
  simp only [isGap, Bool.or_eq_true, beq_iff_eq] at h
  rcases h with rfl | rfl <;> rfl

namespace Piece

/-- A character that is neither digit nor point is a piece by itself. -/
theorem split_cons_mark {c : Char} (h : isLiteralChar c = false) (cs : List Char) :
    split (c :: cs) = mark c :: split cs := by
  simp only [split, h, Bool.false_eq_true, if_false]

private theorem split_of_endsRun {cs : List Char} (h : EndsRun cs) :
    split cs = [] ∨ ∃ c ps, split cs = mark c :: ps := by
  cases cs with
  | nil => exact .inl rfl
  | cons c cs => exact .inr ⟨c, split cs, split_cons_mark (h c rfl) cs⟩

/-- A maximal run of digits and points is one piece. -/
theorem split_literal_append {run rest : List Char} (hne : run ≠ [])
    (hrun : ∀ c ∈ run, isLiteralChar c) (hrest : EndsRun rest) :
    split (run ++ rest) = literal run :: split rest := by
  induction run with
  | nil => exact absurd rfl hne
  | cons c run ih =>
    have hc : isLiteralChar c := hrun c (by simp)
    rw [List.cons_append, split, if_pos hc]
    cases run with
    | nil =>
      rw [List.nil_append]
      rcases split_of_endsRun hrest with h | ⟨d, ps, h⟩
      · rw [h, consLiteral]
        simp
      · rw [h, consLiteral]
        simp
    | cons d run =>
      rw [ih (by simp) fun e he ↦ hrun e (by simp [he]), consLiteral]

/-- A character that is no digit and no point cuts a text in two. -/
theorem split_append_mark {c : Char} (hc : isLiteralChar c = false) (cs ds : List Char) :
    split (cs ++ c :: ds) = split cs ++ mark c :: split ds := by
  have hcons (d : Char) (pieces : List Piece) :
      consLiteral d (pieces ++ mark c :: split ds) =
        consLiteral d pieces ++ mark c :: split ds := by
    cases pieces with
    | nil => rfl
    | cons piece pieces => cases piece <;> rfl
  induction cs with
  | nil => exact split_cons_mark hc ds
  | cons d cs ih =>
    rw [List.cons_append, split, split, ih, hcons]
    split <;> rfl

end Piece

/-- A text that begins with a digit or a point begins with a maximal run of them. -/
theorem exists_maximal_run {c : Char} (hc : isLiteralChar c) (cs : List Char) :
    ∃ run rest, c :: cs = run ++ rest ∧ run ≠ [] ∧ (∀ d ∈ run, isLiteralChar d) ∧ EndsRun rest ∧
      rest.length < (c :: cs).length := by
  refine ⟨c :: cs.takeWhile isLiteralChar, cs.dropWhile isLiteralChar, ?_, by simp, ?_, ?_, ?_⟩
  · rw [List.cons_append, List.takeWhile_append_dropWhile]
  · intro d hd
    rcases List.mem_cons.mp hd with rfl | hd
    · exact hc
    · exact List.all_eq_true.mp (List.all_takeWhile (p := isLiteralChar)) d hd
  · intro d hd
    have h := List.head?_dropWhile_not isLiteralChar cs
    rw [Option.mem_def.mp hd] at h
    exact h
  · have h := (List.dropWhile_sublist isLiteralChar (l := cs)).length_le
    rw [List.length_cons]
    omega

/-- Texts taken apart into maximal runs of digits and points and other characters. -/
@[elab_as_elim] theorem splitRec {motive : List Char → Prop} (nil : motive [])
    (mark : ∀ c cs, isLiteralChar c = false → motive cs → motive (c :: cs))
    (literal : ∀ run rest, run ≠ [] → (∀ c ∈ run, isLiteralChar c) → EndsRun rest → motive rest →
      motive (run ++ rest)) (cs : List Char) : motive cs := by
  induction hn : cs.length using Nat.strongRecOn generalizing cs with
  | ind n ih =>
    cases cs with
    | nil => exact nil
    | cons c cs =>
      cases hc : isLiteralChar c with
      | false => exact mark c cs hc (ih cs.length (by rw [← hn]; simp) cs rfl)
      | true =>
        obtain ⟨run, rest, heq, hne, hrun, hrest, hlt⟩ := exists_maximal_run hc cs
        rw [heq]
        exact literal run rest hne hrun hrest (ih rest.length (by rw [← hn]; exact hlt) rest rfl)

/-- A run of digits and points is a number exactly if it has a digit and at most one point. -/
theorem readNumeral?_eq_some_iff {run : List Char} {x : Float} :
    readNumeral? run = some x ↔
      ((∃ c ∈ run, c.isDigit) ∧ run.count '.' ≤ 1) ∧ numeralValue run = x := by
  simp [readNumeral?, isNumeral]

/-- The tokens that are found have the lexemes of the text. -/
private theorem lexes_of_tokensFrom {cs : List Char} {pos : Nat} {ts : List Token}
    (h : tokensFrom pos (Piece.split cs) = .ok ts) : Lexes cs (ts.map Token.lexeme) := by
  induction cs using splitRec generalizing pos ts with
  | nil =>
    cases h
    exact .nil
  | mark c cs hc ih =>
    rw [Piece.split_cons_mark hc, tokensFrom] at h
    split at h
    · next hgap => exact .gap hgap (ih h)
    · split at h
      · next l hl =>
        cases hts : tokensFrom (pos + 1) (Piece.split cs) with
        | error e => rw [hts] at h; cases h
        | ok us =>
          rw [hts] at h
          cases h
          exact .symbol hl (ih hts)
      · cases h
  | literal run rest hne hrun hrest ih =>
    rw [Piece.split_literal_append hne hrun hrest, tokensFrom] at h
    split at h
    · next x hx =>
      obtain ⟨⟨hdigit, hpoint⟩, rfl⟩ := readNumeral?_eq_some_iff.mp hx
      cases hts : tokensFrom (pos + run.length) (Piece.split rest) with
      | error e => rw [hts] at h; cases h
      | ok us =>
        rw [hts] at h
        cases h
        exact .number hrun hdigit hpoint hrest (ih hts)
    · cases h

/-- Where a text has lexemes, tokens with these lexemes are found. -/
private theorem Lexes.exists_tokensFrom {cs : List Char} {ls : List Lexeme} (h : Lexes cs ls)
    (pos : Nat) : ∃ ts, tokensFrom pos (Piece.split cs) = .ok ts ∧ ts.map Token.lexeme = ls := by
  induction h generalizing pos with
  | nil => exact ⟨[], rfl, rfl⟩
  | gap hc _ ih =>
    obtain ⟨ts, hts, hls⟩ := ih (pos + 1)
    refine ⟨ts, ?_, hls⟩
    rw [Piece.split_cons_mark (isLiteralChar_of_isGap hc), tokensFrom, if_pos hc, hts]
  | @symbol c l cs ls hc _ ih =>
    obtain ⟨ts, hts, hls⟩ := ih (pos + 1)
    refine ⟨⟨l, pos⟩ :: ts, ?_, by rw [List.map_cons, hls]⟩
    rw [Piece.split_cons_mark (isLiteralChar_of_symbol? hc), tokensFrom,
      if_neg (by simp [isGap_of_symbol? hc]), hc, hts]
    rfl
  | @number run rest ls literal digit point maximal _ ih =>
    obtain ⟨ts, hts, hls⟩ := ih (pos + run.length)
    refine ⟨⟨.number (numeralValue run), pos⟩ :: ts, ?_, by rw [List.map_cons, hls]⟩
    have hne : run ≠ [] := by
      obtain ⟨c, hc, -⟩ := digit
      exact List.ne_nil_of_mem hc
    rw [Piece.split_literal_append hne literal maximal, tokensFrom,
      readNumeral?_eq_some_iff.mpr ⟨⟨digit, point⟩, rfl⟩, hts]
    rfl

/-- A text is cut into tokens exactly if it has lexemes, and the tokens have these lexemes. -/
theorem exists_tokenize_iff {cs : List Char} {ls : List Lexeme} :
    (∃ ts, tokenize cs = .ok ts ∧ ts.map Token.lexeme = ls) ↔ Lexes cs ls := by
  constructor
  · rintro ⟨ts, hts, rfl⟩
    exact lexes_of_tokensFrom hts
  · intro h
    exact h.exists_tokensFrom 0

/-- A text has at most one sequence of lexemes. -/
theorem Lexes.unique {cs : List Char} {ls ms : List Lexeme} (h : Lexes cs ls) (h' : Lexes cs ms) :
    ls = ms := by
  obtain ⟨ts, hts, rfl⟩ := exists_tokenize_iff.mpr h
  obtain ⟨us, hus, rfl⟩ := exists_tokenize_iff.mpr h'
  rw [hts] at hus
  cases hus
  rfl

/-- A text that begins with no digit and no point begins with a space, a tab or a symbol. -/
theorem lexes_cons_iff {c : Char} (hc : isLiteralChar c = false) {cs : List Char}
    {ls : List Lexeme} :
    Lexes (c :: cs) ls ↔
      (isGap c ∧ Lexes cs ls) ∨ ∃ l ms, symbol? c = some l ∧ ls = l :: ms ∧ Lexes cs ms := by
  constructor
  · intro h
    generalize hds : c :: cs = ds at h
    cases h with
    | nil => cases hds
    | gap hgap h =>
      cases hds
      exact .inl ⟨hgap, h⟩
    | symbol hl h =>
      cases hds
      exact .inr ⟨_, _, hl, rfl, h⟩
    | @number run rest _ literal digit =>
      cases run with
      | nil =>
        obtain ⟨d, hd, -⟩ := digit
        cases hd
      | cons d run =>
        cases hds
        rw [literal c (by simp)] at hc
        cases hc
  · rintro (⟨hgap, h⟩ | ⟨l, ms, hl, rfl, h⟩)
    · exact .gap hgap h
    · exact .symbol hl h

/-- A maximal run of digits and points is found by taking them from the text. -/
theorem takeWhile_isLiteralChar {run rest : List Char} (hrun : ∀ c ∈ run, isLiteralChar c)
    (hrest : EndsRun rest) : (run ++ rest).takeWhile isLiteralChar = run := by
  rw [List.takeWhile_append_of_pos hrun]
  cases rest with
  | nil => rw [List.takeWhile_nil, List.append_nil]
  | cons c rest => rw [List.takeWhile_cons, hrest c rfl, if_neg (by simp), List.append_nil]

/-- A text that begins with a maximal run of digits and points begins with a number. -/
theorem lexes_run_append_iff {run rest : List Char} (hne : run ≠ [])
    (hrun : ∀ c ∈ run, isLiteralChar c) (hrest : EndsRun rest) {ls : List Lexeme} :
    Lexes (run ++ rest) ls ↔
      ((∃ c ∈ run, c.isDigit) ∧ run.count '.' ≤ 1) ∧
        ∃ ms, ls = .number (numeralValue run) :: ms ∧ Lexes rest ms := by
  obtain ⟨c, run', rfl⟩ := List.exists_cons_of_ne_nil hne
  have hc : isLiteralChar c := hrun c (by simp)
  constructor
  · intro h
    generalize hds : c :: run' ++ rest = ds at h
    cases h with
    | nil => cases hds
    | gap hgap h =>
      cases hds
      rw [isLiteralChar_of_isGap hgap] at hc
      cases hc
    | symbol hl h =>
      cases hds
      rw [isLiteralChar_of_symbol? hl] at hc
      cases hc
    | @number run₁ rest₁ ms literal digit point maximal h =>
      have heq : run₁ = c :: run' := by
        rw [← takeWhile_isLiteralChar literal maximal, ← hds, takeWhile_isLiteralChar hrun hrest]
      subst heq
      obtain rfl := List.append_cancel_left hds
      exact ⟨⟨digit, point⟩, ms, rfl, h⟩
  · rintro ⟨⟨digit, point⟩, ms, rfl, h⟩
    exact .number hrun digit point hrest h

end DeskCalculator.Expression
