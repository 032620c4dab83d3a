import DeskCalculator.Proofs.Diagnosis.Supplied

/-!
# What a diagnosis locates

A fault in an expression of known characters is located unless the expression is a sentence once an
operand is put in wherever an operator stands right before a closing parenthesis.
-/

namespace DeskCalculator.Diagnosis

open Display (Leads)
open Expression (Expr compute isNumeral isOperatorChar literals plain)
open Text (isBlank)

/-- A text is a sentence exactly if it leads to a complete shape. -/
private theorem leads_iff_sentence {cs : List Char} :
    Leads cs (.operator 0) ↔ ∃ t : Expr, Expression.Lexes (plain cs) t.lexemes := by
  constructor
  · rintro ⟨ls, hls, hrun⟩
    obtain ⟨t, rfl⟩ := Expr.exists_lexemes_eq hrun
    exact ⟨t, hls⟩
  · rintro ⟨t, ht⟩
    exact ⟨t.lexemes, ht, t.shape_run 0⟩

/-- A sentence can only fail to have a finite value. -/
private theorem eq_nonFinite_of_leads {cs : List Char} {e : Expression.CalcError}
    (h : Leads cs (.operator 0)) (he : compute cs = .error e) :
    e = .invalidExpression .nonFinite := by
  obtain ⟨ls, hls, hrun⟩ := h
  have hne : ls ≠ [] := by
    rintro rfl
    cases hrun
  rw [compute] at he
  rcases Expression.evaluate_cases hls hne hrun with ⟨x, hx⟩ | hx | ⟨-, hshape⟩
  · rw [hx] at he
    cases he
  · rw [hx] at he
    cases he
    rfl
  · exact absurd rfl hshape

/-- All problems are looked for. -/
private theorem Problem.mem_inOrder (p : Problem) : p ∈ inOrder := by
  cases p <;> decide

/-- Nothing is located exactly if no problem is found. -/
private theorem details_eq_none {cs : List Char} {e : Expression.CalcError}
    (hblank : cs.all isBlank = false) (hfinite : e ≠ .invalidExpression .nonFinite) :
    (diagnose cs e).details = none ↔ ∀ p : Problem, p.find cs = none := by
  have horder : searchOrder e = Problem.inOrder := by
    rw [searchOrder]
    exact fun heq ↦ hfinite heq
  have hlocate : (locate cs e).map Prod.snd = none ↔ ∀ p : Problem, p.find cs = none := by
    rw [Option.map_eq_none_iff, locate, horder, List.findSome?_eq_none_iff]
    simp only [Option.map_eq_none_iff, Problem.mem_inOrder, forall_const]
  rw [diagnose, if_neg (by simp [hblank])]
  dsimp only
  split <;> exact hlocate

/-- A failed expression of known characters without blanks, unless it has no finite value, is left
unlocated exactly if an operator in it stands right before a closing parenthesis, it is a sentence
once every such operator is given an operand, its numbers are written correctly, and it does not
divide by a literal zero. -/
theorem details_eq_none_iff {cs : List Char} {e : Expression.CalcError} (hne : cs ≠ [])
    (hsolid : ∀ c ∈ cs, isSolid c) (he : compute cs = .error e)
    (hfinite : e ≠ .invalidExpression .nonFinite) :
    (diagnose cs e).details = none ↔
      (∃ before o after, cs = before ++ o :: ')' :: after ∧ isOperatorChar o) ∧
      (∃ t : Expr, Expression.Lexes (plain (supplyOperands cs)) t.lexemes) ∧
      (∀ run ∈ literals cs, isNumeral run) ∧ Problem.divisionByZero.find cs = none := by
  have hblank : cs.all isBlank = false := by
    obtain ⟨c, cs, rfl⟩ := List.exists_cons_of_ne_nil hne
    have hc := Bool.and_eq_true_iff.mp (hsolid c (by simp))
    rw [List.all_cons, show isBlank c = false by simpa using hc.2, Bool.false_and]
  have hsound : (∀ p : Problem, p.find cs = none) ↔
      Sound cs ∧ Problem.divisionByZero.find cs = none := by
    rw [sound_iff hsolid]
    constructor
    · exact fun h ↦ ⟨fun p _ ↦ h p, h _⟩
    · rintro ⟨h, hzero⟩ p
      by_cases hp : p = .divisionByZero
      · rwa [hp]
      · exact h p hp
  rw [details_eq_none hblank hfinite, hsound, ← leads_iff_sentence]
  constructor
  · rintro ⟨h, hzero⟩
    have hleads := h.leads hne hsolid
    refine ⟨?_, hleads, h.numerals, hzero⟩
    by_contra hnone
    rw [supplyOperands_eq_self hnone] at hleads
    exact hfinite (eq_nonFinite_of_leads hleads he)
  · rintro ⟨-, hleads, hnumerals, hzero⟩
    exact ⟨.of_leads hsolid hnumerals hleads, hzero⟩

/-- An operator stands before a closing parenthesis, behind a percent sign. -/
theorem details_of_operator_in_group :
    compute "2×(5%+)".toList = .error (.invalidExpression (.unexpectedToken ')' 9)) ∧
      (diagnose "2×(5%+)".toList (.invalidExpression (.unexpectedToken ')' 9))).details = none ∧
      ∃ t : Expr, Expression.Lexes (plain (supplyOperands "2×(5%+)".toList)) t.lexemes := by
  have hcompute :
      compute "2×(5%+)".toList = .error (.invalidExpression (.unexpectedToken ')' 9)) := by
    decide +kernel
  have hdetails :
      (diagnose "2×(5%+)".toList (.invalidExpression (.unexpectedToken ')' 9))).details = none := by
    decide +kernel
  have hsolid : "2×(5%+)".toList.all isSolid := by decide +kernel
  refine ⟨hcompute, hdetails, ?_⟩
  exact ((details_eq_none_iff (by decide) (List.all_eq_true.mp hsolid) hcompute (by simp)).mp
    hdetails).2.1

/-- An operator right before a closing parenthesis is a fault that no problem covers. -/
theorem operator_in_group_unlocated :
    "(5+)".toList ≠ [] ∧ (∀ c ∈ "(5+)".toList, isSolid c) ∧
      compute "(5+)".toList = .error (.invalidExpression (.unexpectedToken ')' 3)) ∧
      (diagnose "(5+)".toList (.invalidExpression (.unexpectedToken ')' 3))).details = none := by
  have hsolid : "(5+)".toList.all isSolid := by decide +kernel
  exact ⟨by decide, List.all_eq_true.mp hsolid, by decide +kernel, by decide +kernel⟩

end DeskCalculator.Diagnosis
