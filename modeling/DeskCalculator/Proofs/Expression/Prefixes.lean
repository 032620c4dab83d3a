import DeskCalculator.Proofs.Expression.Beginning
import Mathlib.Data.List.Basic

/-!
# Beginnings of sentences

A sequence of lexemes begins a sentence of the grammar exactly if its shape admits it: what is due
can be supplied and what is open can be closed. An evaluation reads on as long as the shape does, so
a syntax error stands at the first token that makes the beginning impossible, or at the end.
-/

namespace DeskCalculator.Expression

/-- A sequence of lexemes that derives from the grammar. -/
def IsSentence (ls : List Lexeme) : Prop :=
  ∃ e : Expr, e.lexemes = ls

/-- A sequence of lexemes that is the beginning of a sentence, or all of it. -/
def BeginsSentence (ls : List Lexeme) : Prop :=
  ∃ more, IsSentence (ls ++ more)

/-! ### Sentences by their shape -/

mutual

/-- What an expression derives leaves an operator due. -/
theorem Expr.shape_run (e : Expr) (n : Nat) :
    (Shape.operand n).run e.lexemes = some (.operator n) := by
  cases e with
  | term t =>
    rw [Expr.lexemes]
    exact t.shape_run n
  | add e op t =>
    rw [Expr.lexemes, Shape.run_append, e.shape_run n]
    exact t.shape_run n

/-- What a term derives leaves an operator due. -/
theorem Term.shape_run (t : Term) (n : Nat) :
    (Shape.operand n).run t.lexemes = some (.operator n) := by
  cases t with
  | unary u =>
    rw [Term.lexemes]
    exact u.shape_run n
  | mul t op u =>
    rw [Term.lexemes, Shape.run_append, t.shape_run n]
    exact u.shape_run n

/-- What an operand derives leaves an operator due. -/
theorem Unary.shape_run (u : Unary) (n : Nat) :
    (Shape.operand n).run u.lexemes = some (.operator n) := by
  cases u with
  | negate u =>
    rw [Unary.lexemes]
    exact u.shape_run n
  | primary p =>
    rw [Unary.lexemes]
    exact p.shape_run n

/-- What an operand derives leaves an operator due. -/
theorem Primary.shape_run (p : Primary) (n : Nat) :
    (Shape.operand n).run p.lexemes = some (.operator n) := by
  cases p with
  | number x => rfl
  | group e =>
    have hinner : (Shape.operand n).run (.opening :: e.lexemes) = some (.operator (n + 1)) :=
      e.shape_run (n + 1)
    rw [Primary.lexemes, Shape.run_append, hinner]
    rfl

end

/-- The sentences are the sequences whose shape is complete. -/
theorem isSentence_iff {ls : List Lexeme} :
    IsSentence ls ↔ (Shape.operand 0).run ls = some (.operator 0) := by
  constructor
  · rintro ⟨e, rfl⟩
    exact e.shape_run 0
  · exact Expr.exists_lexemes_eq

/-- Lexemes that complete a sentence from a shape on: an operand if one is due, and a closing
parenthesis for each open one. -/
def Shape.completion : Shape → List Lexeme
  | operand n => .number 0 :: List.replicate n .closing
  | operator n => List.replicate n .closing

/-- Every shape can be completed. -/
theorem Shape.run_completion (s : Shape) : s.run s.completion = some (.operator 0) := by
  have hclose (n : Nat) : (operator n).run (List.replicate n .closing) = some (.operator 0) := by
    induction n with
    | zero => rfl
    | succ n ih => exact ih
  cases s with
  | operand n => exact hclose n
  | operator n => exact hclose n

/-- The beginnings of sentences are the sequences that have a shape. -/
theorem beginsSentence_iff {ls : List Lexeme} :
    BeginsSentence ls ↔ ∃ s, (Shape.operand 0).run ls = some s := by
  constructor
  · rintro ⟨more, h⟩
    rw [isSentence_iff, Shape.run_append] at h
    obtain ⟨s, hs, -⟩ := Option.bind_eq_some_iff.mp h
    exact ⟨s, hs⟩
  · rintro ⟨s, hs⟩
    refine ⟨s.completion, isSentence_iff.mpr ?_⟩
    rw [Shape.run_append, hs]
    exact s.run_completion

/-! ### Places of tokens -/

/-- Tokens that stand from a place on, in the order of their places. -/
def RiseFrom (pos : Nat) (ts : List Token) : Prop :=
  (∀ t ∈ ts, pos ≤ t.pos) ∧ ts.Pairwise (·.pos < ·.pos)

/-- A token stands before those that stand from a later place on. -/
theorem RiseFrom.of_map_cons {pos next : Nat} {l : Lexeme} {r : Except EvalError (List Token)}
    {ts : List Token} (h : (⟨l, pos⟩ :: ·) <$> r = .ok ts) (hlt : pos < next)
    (hr : ∀ us, r = .ok us → RiseFrom next us) : RiseFrom pos ts := by
  cases r with
  | error e => cases h
  | ok us =>
    cases h
    obtain ⟨hle, hpairs⟩ := hr us rfl
    have hall : ∀ t ∈ us, pos < t.pos := fun t ht ↦ Nat.lt_of_lt_of_le hlt (hle t ht)
    exact ⟨List.forall_mem_cons.mpr ⟨Nat.le_refl pos, fun t ht ↦ Nat.le_of_lt (hall t ht)⟩,
      List.pairwise_cons.mpr ⟨hall, hpairs⟩⟩

/-- The tokens of pieces stand in the order of their places. -/
private theorem riseFrom_tokensFrom {pos : Nat} {pieces : List Piece} {ts : List Token}
    (h : tokensFrom pos pieces = .ok ts) : RiseFrom pos ts := by
  induction pieces generalizing pos ts with
  | nil =>
    cases h
    exact ⟨by simp, .nil⟩
  | cons piece pieces ih =>
    cases piece with
    | literal run =>
      rw [tokensFrom] at h
      split at h
      · next x hx =>
        obtain ⟨⟨⟨c, hc, -⟩, -⟩, -⟩ := readNumeral?_eq_some_iff.mp hx
        have hlength := List.length_pos_of_mem hc
        exact .of_map_cons h (Nat.lt_add_of_pos_right hlength) fun us hus ↦ ih hus
      · cases h
    | mark c =>
      rw [tokensFrom] at h
      split at h
      · have hrise := ih h
        exact ⟨fun t ht ↦ Nat.le_of_succ_le (hrise.1 t ht), hrise.2⟩
      · split at h
        · exact .of_map_cons h (Nat.lt_succ_self pos) fun us hus ↦ ih hus
        · cases h

/-- No two tokens of a text stand at the same place. -/
private theorem eq_of_pos_eq {cs : List Char} {ts : List Token} (h : tokenize cs = .ok ts)
    {j k : Nat}
    (hj : j < ts.length) (hk : k < ts.length) (hpos : ts[j].pos = ts[k].pos) : j = k := by
  have hpairs := List.pairwise_iff_getElem.mp (riseFrom_tokensFrom h).2
  rcases Nat.lt_trichotomy j k with hlt | heq | hlt
  · exact absurd hpos (Nat.ne_of_lt (hpairs j k hj hk hlt))
  · exact heq
  · exact absurd hpos.symm (Nat.ne_of_lt (hpairs k j hk hj hlt))

/-! ### Where an evaluation fails -/

/-- An unexpected token is one that the shape before it does not admit. -/
theorem State.exists_of_unexpectedToken {s : State} {ts : List Token} {found : Char} {pos : Nat}
    (h : s.run ts = .error (.unexpectedToken found pos)) :
    ∃ k q, ∃ hk : k < ts.length, found = ts[k].lexeme.glyph ∧ pos = ts[k].pos ∧
      s.shape.run ((ts.take k).map Token.lexeme) = some q ∧ q.step ts[k].lexeme = none := by
  induction ts generalizing s with
  | nil => cases h
  | cons t ts ih =>
    rw [State.run] at h
    cases s.stepOutcome t with
    | goesOn hs hshape =>
      rw [hs, ok_bind] at h
      obtain ⟨k, q, hk, hfound, hpos, hrun, hstep⟩ := ih h
      refine ⟨k + 1, q, Nat.succ_lt_succ hk, hfound, hpos, ?_, hstep⟩
      rw [List.take_succ_cons, List.map_cons, Shape.run, hshape]
      exact hrun
    | nonFinite hs =>
      rw [hs] at h
      cases h
    | unexpected hs hshape =>
      rw [hs] at h
      cases h
      exact ⟨0, s.shape, Nat.succ_pos _, rfl, rfl, rfl, hshape⟩

/-- Tokens that end too early are the beginning of a sentence and no sentence. -/
private theorem shape_of_unexpectedEnd {ts : List Token}
    (h : evaluateTokens ts = .error .unexpectedEnd) :
    ts ≠ [] ∧ ∃ q, (Shape.operand 0).run (ts.map Token.lexeme) = some q ∧ q ≠ .operator 0 := by
  unfold evaluateTokens at h
  split at h
  · cases h
  · next hne =>
    refine ⟨by simpa using hne, ?_⟩
    cases hrun : State.start.run ts with
    | error e =>
      rw [hrun] at h
      cases h
      rcases State.run_error hrun with he | ⟨found, pos, he⟩ <;> cases he
    | ok s =>
      rw [hrun, ok_bind] at h
      refine ⟨s.shape, State.shape_of_run hrun, ?_⟩
      rcases s.finish_cases with ⟨x, hx⟩ | hx | ⟨-, hshape⟩
      · rw [hx] at h
        cases h
      · rw [hx] at h
        cases h
      · exact hshape

/-- An unexpected token is found while the tokens are read. -/
theorem run_of_unexpectedToken {ts : List Token} {found : Char} {pos : Nat}
    (h : evaluateTokens ts = .error (.unexpectedToken found pos)) :
    State.start.run ts = .error (.unexpectedToken found pos) := by
  unfold evaluateTokens at h
  split at h
  · cases h
  · cases hrun : State.start.run ts with
    | error e =>
      rw [hrun] at h
      cases h
      rfl
    | ok s =>
      rw [hrun, ok_bind] at h
      rcases s.finish_cases with ⟨x, hx⟩ | hx | ⟨hx, -⟩
      all_goals
        rw [hx] at h
        cases h

/-- The lexemes up to one that the shape does not admit begin no sentence. -/
private theorem beginsSentence_take {ts : List Token} {k : Nat} (hk : k < ts.length) {q : Shape}
    (hrun : (Shape.operand 0).run ((ts.take k).map Token.lexeme) = some q)
    (hstep : q.step ts[k].lexeme = none) :
    BeginsSentence ((ts.take k).map Token.lexeme) ∧
      ¬ BeginsSentence ((ts.take (k + 1)).map Token.lexeme) := by
  refine ⟨beginsSentence_iff.mpr ⟨q, hrun⟩, fun h ↦ ?_⟩
  obtain ⟨s, hs⟩ := beginsSentence_iff.mp h
  rw [List.take_succ_eq_append_getElem hk, List.map_append, Shape.run_append, hrun] at hs
  have hlast : q.run [ts[k].lexeme] = some s := hs
  obtain ⟨s', hs', -⟩ := Option.bind_eq_some_iff.mp hlast
  rw [hstep] at hs'
  cases hs'

/-- A text that ends too early has tokens that are no sentence and a proper beginning of one. A text
with an unexpected token has it at the place of one of its tokens, and there the tokens before it
begin a sentence while those up to it begin none. -/
theorem error_at_first_impossible_token {cs : List Char} {ts : List Token}
    (hts : tokenize cs = .ok ts) :
    (evaluate cs = .error .unexpectedEnd →
      ts ≠ [] ∧ ¬ IsSentence (ts.map Token.lexeme) ∧
        ∃ more, more ≠ [] ∧ IsSentence (ts.map Token.lexeme ++ more)) ∧
    ∀ found pos, evaluate cs = .error (.unexpectedToken found pos) →
      (∃ k, ∃ hk : k < ts.length, ts[k].pos = pos ∧ ts[k].lexeme.glyph = found) ∧
      ∀ k, (hk : k < ts.length) → ts[k].pos = pos →
        BeginsSentence ((ts.take k).map Token.lexeme) ∧
          ¬ BeginsSentence ((ts.take (k + 1)).map Token.lexeme) := by
  have heq : evaluate cs = evaluateTokens ts := by
    rw [evaluate, hts, ok_bind]
  rw [heq]
  constructor
  · intro h
    obtain ⟨hne, q, hrun, hq⟩ := shape_of_unexpectedEnd h
    have hno : ¬ IsSentence (ts.map Token.lexeme) := by
      rw [isSentence_iff, hrun, Option.some.injEq]
      exact hq
    obtain ⟨more, hmore⟩ := beginsSentence_iff.mpr ⟨q, hrun⟩
    refine ⟨hne, hno, more, ?_, hmore⟩
    rintro rfl
    rw [List.append_nil] at hmore
    exact hno hmore
  · intro found pos h
    obtain ⟨j, q, hj, rfl, rfl, hrun, hstep⟩ :=
      State.exists_of_unexpectedToken (run_of_unexpectedToken h)
    refine ⟨⟨j, hj, rfl, rfl⟩, fun k hk hpos ↦ ?_⟩
    obtain rfl := eq_of_pos_eq hts hk hj hpos
    exact beginsSentence_take hk hrun hstep

/-- A number follows a closed group, where the tokens before it can still be continued; and a text
ends inside a group, after an operator. -/
theorem error_after_group_and_at_end :
    let group : List Token := [⟨.opening, 0⟩, ⟨.number 1, 1⟩, ⟨.add .plus, 2⟩, ⟨.number 2, 3⟩,
      ⟨.closing, 4⟩, ⟨.number 3, 5⟩, ⟨.mul .times, 6⟩]
    let ends : List Token := [⟨.add .minus, 0⟩, ⟨.opening, 1⟩, ⟨.number 2, 2⟩, ⟨.mul .times, 3⟩]
    (tokenize "(1+2)3*".toList = .ok group ∧
      evaluate "(1+2)3*".toList = .error (.unexpectedToken '0' 5) ∧
      BeginsSentence ((group.take 5).map Token.lexeme) ∧
      ¬ BeginsSentence ((group.take 6).map Token.lexeme)) ∧
    tokenize "-(2*".toList = .ok ends ∧ evaluate "-(2*".toList = .error .unexpectedEnd ∧
      ¬ IsSentence (ends.map Token.lexeme) ∧
      ∃ more, more ≠ [] ∧ IsSentence (ends.map Token.lexeme ++ more) := by
  intro group ends
  have hgroup : tokenize "(1+2)3*".toList = .ok group := by decide +kernel
  have herror : evaluate "(1+2)3*".toList = .error (.unexpectedToken '0' 5) := by decide +kernel
  have hends : tokenize "-(2*".toList = .ok ends := by decide +kernel
  have hend : evaluate "-(2*".toList = .error .unexpectedEnd := by decide +kernel
  have hplace := ((error_at_first_impossible_token hgroup).2 '0' 5 herror).2
  exact ⟨⟨hgroup, herror, hplace 5 (by decide) rfl⟩, hends, hend,
    ((error_at_first_impossible_token hends).1 hend).2⟩

end DeskCalculator.Expression
