import DeskCalculator.Diagnosis.Diagnose
import DeskCalculator.Proofs.Diagnosis.Problems
import Mathlib.Data.List.DropRight

/-!
# What a repair brings back

A repair leaves a text alone where it has no problem. So a text with a value that is cut short is
repaired to what it was: if it loses some of the parentheses that it ends with, or is followed by an
operator, it has no value any more, nothing before the cut is a problem, the operator is dropped,
and exactly the lost parentheses are open.
-/

namespace DeskCalculator.Diagnosis

open Display (Leads)
open Expression (Shape compute evaluate hasMisplacedPercent hasMisplacedPercentAfter
  isMisplacedPercent isOperatorChar plain solidAfter)
open Text (isBlank)

/-! ### Texts without problems -/

/-- The nearest character that is not blank is carried along. -/
private theorem solidAfter_solid? (seen : List Char) (c : Char) :
    solidAfter (solid? seen) c = solid? (c :: seen) := by
  rw [solidAfter, solid?, solid?, List.find?_cons]
  cases isBlank c <;> rfl

/-- A percent sign without an operand is held exactly if the problem is found. -/
theorem hasMisplacedPercentAfter_eq (seen cs : List Char) :
    hasMisplacedPercentAfter (solid? seen) cs =
      (firstSplit Problem.misplacedPercent.width seen cs).isSome := by
  induction cs generalizing seen with
  | nil => rfl
  | cons c cs ih =>
    rw [hasMisplacedPercentAfter, solidAfter_solid?, ih, firstSplit, Problem.width,
      Problem.widthAt]
    cases isMisplacedPercent (solid? seen) c <;> rfl

/-- Nothing is dropped where no percent sign lacks its operand. -/
theorem dropPercentsAfter_eq_self {prev : Option Char} {cs : List Char}
    (h : hasMisplacedPercentAfter prev cs = false) : dropPercentsAfter prev cs = cs := by
  induction cs generalizing prev with
  | nil => rfl
  | cons c cs ih =>
    rw [hasMisplacedPercentAfter, Bool.or_eq_false_iff] at h
    rw [dropPercentsAfter, ih h.2, h.1]
    rfl

/-- Nothing is trimmed from a text that does not end in a blank. -/
theorem trimRight_eq_self {cs : List Char} (h : ∀ c ∈ cs.getLast?, isBlank c = false) :
    Text.trimRight cs = cs := by
  rcases List.eq_nil_or_concat cs with rfl | ⟨cs, c, rfl⟩
  · rfl
  · rw [List.concat_eq_append] at h ⊢
    have hc : isBlank c = false := h c List.getLast?_concat
    rw [Text.trimRight, List.reverse_append, List.reverse_singleton, List.singleton_append,
      List.dropWhile_cons, hc]
    simp

/-! ### Cutting -/

/-- Some of the parentheses at the end of a text are cut off. -/
private theorem rdrop_append_closings {v : List Char} {k : Nat}
    (hk : k ≤ (v.rtakeWhile (· == ')')).length) : v.rdrop k ++ List.replicate k ')' = v := by
  induction v using List.reverseRecOn generalizing k with
  | nil =>
    obtain rfl := Nat.le_zero.mp hk
    rfl
  | append_singleton v c ih =>
    cases k with
    | zero => rw [List.rdrop_zero, List.replicate_zero, List.append_nil]
    | succ k =>
      rw [List.rtakeWhile_concat] at hk
      split at hk
      · next hc =>
        obtain rfl := beq_iff_eq.mp hc
        rw [List.length_append, List.length_singleton] at hk
        rw [List.rdrop_concat_succ, List.replicate_succ', ← List.append_assoc,
          ih (Nat.le_of_succ_le_succ hk)]
      · cases hk

section

variable {a : List Char} {k : Nat} {o : Option Char}

/-- What is left of a text with a value ends neither in an operator nor in an opening parenthesis,
and it is not empty. -/
theorem not_operandDue_of_cut (h : Leads (a ++ List.replicate k ')') (.operator 0)) :
    (solid? a.reverse).all (fun c ↦ isOperatorChar c || c == '(') = false := by
  rw [← Bool.not_eq_true]
  intro hdue
  cases k with
  | zero =>
    rw [List.replicate_zero, List.append_nil] at h
    obtain ⟨n, hn⟩ := h.operand_of_isOperatorChar hdue
    cases hn
  | succ k => exact Display.not_leads_of_operand (d := ')') hdue rfl rfl (fun _ ↦ rfl) h

/-- A problem that is seen from its place back is found neither in the beginning of a text without
it nor at an operator after that, if it does not begin at operators. -/
theorem find_of_cut {p : Problem} (hback : ∀ seen c rest, p.widthAt seen c rest = p.widthAt seen c [])
    (hoperator : ∀ seen, ∀ c ∈ o, p.widthAt seen c [] = none) {more : List Char}
    (h : p.find (a ++ more) = none) : p.find (a ++ o.toList) = none := by
  have ha : p.find a = none := Problem.find_of_append hback h
  cases o with
  | none => rwa [Option.toList_none, List.append_nil]
  | some c => exact (firstSplit_concat_eq_none_iff hback).mpr ⟨ha, hoperator _ c rfl⟩

/-- Exactly the parentheses that are cut off are open. -/
theorem openAfter_of_cut (h : Leads (a ++ List.replicate k ')') (.operator 0)) :
    openAfter 0 a = k := by
  have hmatched : Problem.unmatchedClose.find a = none :=
    Problem.find_of_append (fun _ _ _ ↦ rfl) (Problem.find_unmatchedClose h)
  have hopen := openAfter_add_count hmatched
  have hcount := h.count_opening
  rw [List.count_append, List.count_append, List.count_replicate_self,
    List.count_replicate, if_neg (by decide), Shape.depth] at hcount
  omega

/-- What is left of a text with a value is no text with a value. -/
private theorem not_leads_of_cut (h : Leads (a ++ List.replicate k ')') (.operator 0))
    (ho : ∀ c ∈ o, isOperatorChar c) (hcut : 0 < k ∨ o.isSome) :
    ¬ Leads (a ++ o.toList) (.operator 0) := by
  intro he
  cases o with
  | none =>
    rw [Option.toList_none, List.append_nil] at he
    have hclosed := openAfter_eq_depth he
    rw [openAfter_of_cut h, Shape.depth] at hclosed
    rcases hcut with hk | hnone
    · omega
    · cases hnone
  | some c =>
    have hc := ho c rfl
    have hdue : (solid? (a ++ [c]).reverse).all (fun c ↦ isOperatorChar c || c == '(') := by
      rw [Display.solid?_reverse (isBlank_of_isOperatorChar hc) (by simp), Option.all_some, hc]
      rfl
    obtain ⟨n, hn⟩ := he.operand_of_isOperatorChar hdue
    cases hn

/-- The operator that was put in place of what is cut off is dropped, and nothing else. -/
theorem dropTrailingOperator_of_cut (h : Leads (a ++ List.replicate k ')') (.operator 0))
    (ho : ∀ c ∈ o, isOperatorChar c) : dropTrailingOperator (a ++ o.toList) = a := by
  cases o with
  | some c =>
    have hlast : (a ++ [c]).getLast?.any isOperatorChar := by
      rw [List.getLast?_concat, Option.any_some, ho c rfl]
    rw [Option.toList_some, dropTrailingOperator, if_pos hlast, List.dropLast_concat]
  | none =>
    rw [Option.toList_none, List.append_nil, dropTrailingOperator, if_neg]
    intro hlast
    rcases List.eq_nil_or_concat a with rfl | ⟨b, c, rfl⟩
    · cases hlast
    · rw [List.concat_eq_append] at h hlast
      rw [List.getLast?_concat, Option.any_some] at hlast
      have hdue := not_operandDue_of_cut h
      rw [Display.solid?_reverse (isBlank_of_isOperatorChar hlast) (by simp), Option.all_some,
        hlast] at hdue
      cases hdue

/-- No percent sign lacks its operand. -/
private theorem hasMisplacedPercent_of_cut (h : Leads (a ++ List.replicate k ')') (.operator 0))
    (ho : ∀ c ∈ o, isOperatorChar c) : hasMisplacedPercent (a ++ o.toList) = false := by
  have hoperator (seen : List Char) : ∀ c ∈ o, Problem.misplacedPercent.widthAt seen c [] = none := by
    intro c hc
    have hpercent : (c == '%') = false := by
      rw [beq_eq_false_iff_ne]
      rintro rfl
      cases ho _ hc
    rw [Problem.widthAt, isMisplacedPercent, hpercent]
    rfl
  have hnone := find_of_cut (fun _ _ _ ↦ rfl) hoperator (Problem.find_misplacedPercent h)
  rw [Problem.find] at hnone
  have heq := hasMisplacedPercentAfter_eq [] (a ++ o.toList)
  rw [hnone] at heq
  exact heq

/-- No closing parenthesis lacks its partner. -/
private theorem find_unmatchedClose_of_cut (h : Leads (a ++ List.replicate k ')') (.operator 0))
    (ho : ∀ c ∈ o, isOperatorChar c) : Problem.unmatchedClose.find (a ++ o.toList) = none := by
  refine find_of_cut (fun _ _ _ ↦ rfl) (fun seen c hc ↦ ?_) (Problem.find_unmatchedClose h)
  have hclosing : (c == ')') = false := by
    rw [beq_eq_false_iff_ne]
    rintro rfl
    cases ho _ hc
  rw [Problem.widthAt, hclosing]
  rfl

/-- Without blanks a repair looks at all of what is left. -/
theorem trimRight_of_cut (hblank : ∀ c ∈ a, isBlank c = false)
    (h : Leads (a ++ List.replicate k ')') (.operator 0)) (ho : ∀ c ∈ o, isOperatorChar c) :
    Text.trimRight (dropPercentsAfter none (a ++ o.toList)) = a ++ o.toList := by
  rw [dropPercentsAfter_eq_self (hasMisplacedPercent_of_cut h ho)]
  apply trimRight_eq_self
  intro c hc
  rcases List.mem_append.mp (List.mem_of_getLast? hc) with hc | hc
  · exact hblank c hc
  · exact isBlank_of_isOperatorChar (ho c (Option.mem_toList.mp hc))

/-- The repair brings back what was cut off. -/
private theorem repair?_of_cut (hblank : ∀ c ∈ a, isBlank c = false)
    (h : Leads (a ++ List.replicate k ')') (.operator 0)) (ho : ∀ c ∈ o, isOperatorChar c)
    (hcut : 0 < k ∨ o.isSome) {x : Float}
    (hx : evaluate (plain (a ++ List.replicate k ')')) = .ok x) :
    ∃ steps, repair? (a ++ o.toList) = some (a ++ List.replicate k ')', steps) := by
  have hmend : mend (a ++ o.toList) = a ++ List.replicate k ')' := by
    rw [mend, trimRight_of_cut hblank h ho, dropTrailingOperator_of_cut h ho, openAfter_of_cut h]
  have hsteps : (mendSteps (a ++ o.toList)).isEmpty = false := by
    rw [mendSteps, trimRight_of_cut hblank h ho, dropTrailingOperator_of_cut h ho,
      openAfter_of_cut h]
    rcases hcut with hk | hsome
    · have hne : k ≠ 0 := by omega
      simp [hne]
    · obtain ⟨c, rfl⟩ := Option.isSome_iff_exists.mp hsome
      simp [ho c rfl]
  have hne : a ++ List.replicate k ')' ≠ [] := by
    intro hnil
    rw [hnil] at hx
    cases hx
  refine ⟨mendSteps (a ++ o.toList), ?_⟩
  rw [repair?, find_unmatchedClose_of_cut h ho, if_neg (by simp), hmend, hsteps, hx, if_neg]
  simpa using hne

end

/-- A text with a value and without blanks that loses some of the parentheses at its end, or is
followed by an operator, has no value any more, and the repair that is offered is the text. -/
theorem suggestion_of_truncated {v : List Char} {x : Float} {k : Nat} {o : Option Char}
    (hblank : ∀ c ∈ v, isBlank c = false) (hv : compute v = .ok x)
    (hk : k ≤ (v.rtakeWhile (· == ')')).length) (ho : ∀ c ∈ o, isOperatorChar c)
    (hcut : 0 < k ∨ o.isSome) :
    ∃ e, compute (v.rdrop k ++ o.toList) = .error e ∧
      (diagnose (v.rdrop k ++ o.toList) e).suggestion = some v := by
  have hv' := rdrop_append_closings hk
  generalize v.rdrop k = a at hv' ⊢
  subst hv'
  have hx := Display.compute_eq_ok_iff_evaluate.mp hv
  have hleads := Display.leads_of_evaluate hx
  have hsolid : ∀ c ∈ a, isBlank c = false := fun c hc ↦ hblank c (List.mem_append_left _ hc)
  cases hvalue : compute (a ++ o.toList) with
  | ok y =>
    have hevaluate := Display.compute_eq_ok_iff_evaluate.mp hvalue
    exact absurd (Display.leads_of_evaluate hevaluate) (not_leads_of_cut hleads ho hcut)
  | error e =>
    refine ⟨e, rfl, ?_⟩
    obtain ⟨steps, hrepair⟩ := repair?_of_cut hsolid hleads ho hcut hx
    have hnot : (a ++ o.toList).all isBlank = false := by
      cases a with
      | nil =>
        have hdue := not_operandDue_of_cut hleads
        cases hdue
      | cons c a => simp [hsolid c (by simp)]
    rw [diagnose, if_neg (by rw [hnot]; decide), hrepair]

/-- Both parentheses at the end are cut off and a division sign is put in their place. -/
theorem suggestion_of_nested_group :
    compute "2×(3+(4))".toList = .ok 14 ∧ (2 ≤ ("2×(3+(4))".toList.rtakeWhile (· == ')')).length) ∧
      ("2×(3+(4))".toList.rdrop 2 ++ (some '÷').toList = "2×(3+(4÷".toList) ∧
      ∃ e, compute ("2×(3+(4))".toList.rdrop 2 ++ (some '÷').toList) = .error e ∧
        (diagnose ("2×(3+(4))".toList.rdrop 2 ++ (some '÷').toList) e).suggestion =
          some "2×(3+(4))".toList := by
  have hvalue : compute "2×(3+(4))".toList = .ok 14 := by decide +kernel
  have hlength : 2 ≤ ("2×(3+(4))".toList.rtakeWhile (· == ')')).length := by decide +kernel
  have hsolid : "2×(3+(4))".toList.all (!isBlank ·) := by decide +kernel
  refine ⟨hvalue, hlength, by decide +kernel, ?_⟩
  refine suggestion_of_truncated (fun c hc ↦ ?_) hvalue hlength (fun c hc ↦ ?_) (.inl (by decide))
  · simpa using List.all_eq_true.mp hsolid c hc
  · cases hc
    rfl

end DeskCalculator.Diagnosis
