import DeskCalculator.Proofs.Expression.Lexing

/-!
# The number literals of a text

The literals of a text are its maximal runs of digits and points. Each of them has at most one point
exactly if no stretch of digits and points, maximal or not, has two.
-/

namespace DeskCalculator.Expression

/-- No stretch of digits and points has two points. -/
def PointsApart (cs : List Char) : Prop :=
  ∀ run, run <:+: cs → (∀ c ∈ run, isLiteralChar c) → run.count '.' ≤ 1

/-- A character that is neither digit nor point is in no literal. -/
theorem literals_cons_mark {c : Char} (h : isLiteralChar c = false) (cs : List Char) :
    literals (c :: cs) = literals cs := by
  rw [literals, Piece.split_cons_mark h]
  rfl

/-- A maximal run of digits and points is a literal. -/
theorem literals_run_append {run rest : List Char} (hne : run ≠ [])
    (hrun : ∀ c ∈ run, isLiteralChar c) (hrest : EndsRun rest) :
    literals (run ++ rest) = run :: literals rest := by
  rw [literals, Piece.split_literal_append hne hrun hrest]
  rfl

/-- Characters that are no digits and no points cut the literals of a text in two. -/
private theorem literals_append_mark {c : Char} (hc : isLiteralChar c = false) (cs ds : List Char) :
    literals (cs ++ c :: ds) = literals cs ++ literals ds := by
  rw [literals, Piece.split_append_mark hc, List.filterMap_append]
  rfl

/-- Characters at the end that are no digits and no points change no literal. -/
theorem literals_append_marks {ds : List Char} (hds : ∀ c ∈ ds, isLiteralChar c = false)
    (cs : List Char) : literals (cs ++ ds) = literals cs := by
  induction ds generalizing cs with
  | nil => rw [List.append_nil]
  | cons d ds ih =>
    obtain ⟨hd, hrest⟩ := List.forall_mem_cons.mp hds
    have hnil : literals ds = [] := ih hrest []
    rw [literals_append_mark hd, hnil, List.append_nil]

/-- A stretch of digits and points that cannot be made longer is a literal. -/
theorem mem_literals {before run rest : List Char}
    (hbefore : ∀ c ∈ before.getLast?, isLiteralChar c = false) (hne : run ≠ [])
    (hrun : ∀ c ∈ run, isLiteralChar c) (hrest : EndsRun rest) :
    run ∈ literals (before ++ (run ++ rest)) := by
  induction before using splitRec with
  | nil =>
    rw [List.nil_append, literals_run_append hne hrun hrest]
    exact List.mem_cons_self
  | mark c cs hc ih =>
    rw [List.cons_append, literals_cons_mark hc]
    refine ih fun d hd ↦ hbefore d ?_
    rw [List.getLast?_cons, Option.mem_def.mp hd]
    rfl
  | literal first between hfirst_ne hfirst hbetween ih =>
    cases between with
    | nil =>
      rw [List.append_nil, List.getLast?_eq_some_getLast hfirst_ne] at hbefore
      have hlast := hbefore _ rfl
      rw [hfirst _ (List.getLast_mem hfirst_ne)] at hlast
      cases hlast
    | cons d between =>
      have hends : EndsRun (d :: between ++ (run ++ rest)) := hbetween
      rw [List.append_assoc, literals_run_append hfirst_ne hfirst hends]
      refine List.mem_cons_of_mem _ (ih fun e he ↦ hbefore e ?_)
      rw [List.getLast?_append, Option.mem_def.mp he]
      rfl

/-- A literal is a stretch of digits and points of the text that cannot be made longer. -/
theorem exists_of_mem_literals {cs run : List Char} (h : run ∈ literals cs) :
    ∃ before rest, cs = before ++ (run ++ rest) ∧ (∀ c ∈ before.getLast?, isLiteralChar c = false) ∧
      run ≠ [] ∧ (∀ c ∈ run, isLiteralChar c) ∧ EndsRun rest := by
  induction cs using splitRec with
  | nil => cases h
  | mark c cs hc ih =>
    rw [literals_cons_mark hc] at h
    obtain ⟨before, rest, rfl, hbefore, hrun⟩ := ih h
    refine ⟨c :: before, rest, rfl, fun d hd ↦ ?_, hrun⟩
    rw [List.getLast?_cons] at hd
    cases hlast : before.getLast? with
    | none =>
      rw [hlast] at hd
      cases hd
      exact hc
    | some e =>
      rw [hlast] at hd
      cases hd
      exact hbefore _ hlast
  | literal first rest hne hfirst hrest ih =>
    rw [literals_run_append hne hfirst hrest] at h
    rcases List.mem_cons.mp h with rfl | h
    · exact ⟨[], rest, rfl, fun c hc ↦ (by cases hc), hne, hfirst, hrest⟩
    · obtain ⟨before, more, rfl, hbefore, hrun_ne, hrun, hmore⟩ := ih h
      refine ⟨first ++ before, more, by rw [List.append_assoc], fun d hd ↦ ?_, hrun_ne, hrun, hmore⟩
      rcases List.eq_nil_or_concat before with rfl | ⟨before, e, rfl⟩
      · -- The literal would go on from the first one.
        obtain ⟨c, run, rfl⟩ := List.exists_cons_of_ne_nil hrun_ne
        have hc : isLiteralChar c = false := hrest c rfl
        rw [hrun c (by simp)] at hc
        cases hc
      · rw [List.concat_eq_append] at hd hbefore
        rw [← List.append_assoc, List.getLast?_concat] at hd
        rw [List.getLast?_concat] at hbefore
        exact hbefore d hd

/-- A literal is a stretch of digits and points of the text. -/
private theorem infix_of_mem_literals {cs run : List Char} (h : run ∈ literals cs) :
    run <:+: cs ∧ (∀ c ∈ run, isLiteralChar c) := by
  obtain ⟨before, rest, rfl, -, -, hrun, -⟩ := exists_of_mem_literals h
  exact ⟨⟨before, rest, by rw [List.append_assoc]⟩, hrun⟩

/-- Before a text that goes on with no digit and no point, a stretch of them ends. -/
theorem eq_nil_of_prefix_of_endsRun {cs run : List Char} (h : run <+: cs) (hcs : EndsRun cs)
    (hrun : ∀ c ∈ run, isLiteralChar c) : run = [] := by
  cases run with
  | nil => rfl
  | cons c run =>
    obtain ⟨rest, rfl⟩ := h
    have hc : isLiteralChar c = false := hcs c rfl
    rw [hrun c (by simp)] at hc
    cases hc

/-- It is enough to look at the literals. -/
theorem pointsApart_iff {cs : List Char} :
    PointsApart cs ↔ ∀ run ∈ literals cs, run.count '.' ≤ 1 := by
  constructor
  · intro h run hrun
    have hpart := infix_of_mem_literals hrun
    exact h run hpart.1 hpart.2
  · induction cs using splitRec with
    | nil =>
      intro _ run hrun _
      rw [List.infix_nil.mp hrun]
      decide
    | mark c cs hc ih =>
      rw [literals_cons_mark hc]
      intro h run hpart hrun
      rcases List.infix_cons_iff.mp hpart with hbegins | hpart
      · have hends : EndsRun (c :: cs) := fun d hd ↦ by cases hd; exact hc
        rw [eq_nil_of_prefix_of_endsRun hbegins hends hrun]
        decide
      · exact ih h run hpart hrun
    | literal first rest hne hfirst hrest ih =>
      rw [literals_run_append hne hfirst hrest, List.forall_mem_cons]
      rintro ⟨hpoints, h⟩ run hpart hrun
      -- A stretch across the end of the first literal would go on with no digit and no point.
      rcases List.infix_append_iff.mp hpart with hpart | hpart | ⟨l, m, rfl, hl, hm⟩
      · exact Nat.le_trans (hpart.sublist.count_le '.') hpoints
      · exact ih h run hpart hrun
      · have hnil : m = [] :=
          eq_nil_of_prefix_of_endsRun hm hrest fun c hc ↦ hrun c (List.mem_append_right l hc)
        rw [hnil, List.append_nil]
        exact Nat.le_trans (hl.sublist.count_le '.') hpoints

end DeskCalculator.Expression
