import DeskCalculator.Diagnosis.Diagnose
import DeskCalculator.Proofs.Diagnosis.Problems

/-!
# What a repair keeps

A repair takes away percent signs, blanks at the end and one operator before them, and adds closing
parentheses at the end. So the numbers, the opening parentheses and the operators but the last stay
as they are. A percent sign that is taken away has no operand before it, so no two numbers run into
one another.
-/

namespace DeskCalculator.Diagnosis

open Display (Leads)
open Expression (EndsRun Shape evaluate isLiteralChar isMisplacedPercent isOperatorChar literals plain
  solidAfter)
open Text (isBlank)

/-! ### Dropping percent signs -/

/-- Dropping percent signs goes on with a run of digits and points as it is. -/
private theorem dropPercentsAfter_run_append {run : List Char} (hne : run ≠ [])
    (hrun : ∀ c ∈ run, isLiteralChar c) (prev : Option Char) (rest : List Char) :
    ∃ d, isLiteralChar d ∧
      dropPercentsAfter prev (run ++ rest) = run ++ dropPercentsAfter (some d) rest := by
  induction run generalizing prev with
  | nil => exact absurd rfl hne
  | cons c run ih =>
    have hc : isLiteralChar c := hrun c (by simp)
    have hsolid : solidAfter prev c = some c := by
      rw [solidAfter, isBlank_of_endsValue (by rw [endsValue, hc]; rfl)]
      rfl
    have hkept : isMisplacedPercent prev c = false := by
      have hpercent : c ≠ '%' := by
        rintro rfl
        cases hc
      rw [isMisplacedPercent, beq_eq_false_iff_ne.mpr hpercent, Bool.false_and]
    rw [List.cons_append, dropPercentsAfter, hsolid, hkept]
    cases run with
    | nil => exact ⟨c, hc, rfl⟩
    | cons e run =>
      obtain ⟨d, hd, heq⟩ := ih (by simp) (fun f hf ↦ hrun f (by simp [hf])) (some c)
      exact ⟨d, hd, congrArg (c :: ·) heq⟩

/-- A percent sign after a number stays, so no number goes on where none did. -/
private theorem endsRun_dropPercents {d : Char} (hd : isLiteralChar d) {cs : List Char}
    (h : EndsRun cs) : EndsRun (dropPercentsAfter (some d) cs) := by
  cases cs with
  | nil => exact h
  | cons c cs =>
    have hkept : isMisplacedPercent (some d) c = false := by
      have hopening : (d == '(') = false := by
        rw [beq_eq_false_iff_ne]
        rintro rfl
        cases hd
      rw [isMisplacedPercent, Option.all_some, isOperatorChar_of_isLiteralChar hd, hopening,
        Bool.false_or, Bool.and_false]
    rw [dropPercentsAfter, hkept]
    exact h

/-- The numbers of a text stay as they are when percent signs are dropped. -/
theorem literals_dropPercents (cs : List Char) (prev : Option Char) :
    literals (dropPercentsAfter prev cs) = literals cs := by
  induction cs using Expression.splitRec generalizing prev with
  | nil => rfl
  | mark c cs hc ih =>
    rw [dropPercentsAfter, Expression.literals_cons_mark hc]
    split
    · exact ih _
    · rw [Expression.literals_cons_mark hc, ih]
  | literal run rest hne hrun hrest ih =>
    obtain ⟨d, hd, heq⟩ := dropPercentsAfter_run_append hne hrun prev rest
    rw [heq, Expression.literals_run_append hne hrun (endsRun_dropPercents hd hrest),
      Expression.literals_run_append hne hrun hrest, ih]

/-- Nothing but percent signs is dropped. -/
theorem filter_dropPercents {p : Char → Bool} (hp : p '%' = false) (prev : Option Char)
    (cs : List Char) : (dropPercentsAfter prev cs).filter p = cs.filter p := by
  induction cs generalizing prev with
  | nil => rfl
  | cons c cs ih =>
    rw [dropPercentsAfter]
    split
    · next hmisplaced =>
      rw [isMisplacedPercent, Bool.and_eq_true, beq_iff_eq] at hmisplaced
      obtain ⟨rfl, -⟩ := hmisplaced
      rw [ih, List.filter_cons_of_neg (by simp [hp])]
    · rw [List.filter_cons, List.filter_cons, ih]

/-! ### The end of a text -/

/-- Blanks are trimmed. -/
theorem exists_trimRight_append (cs : List Char) :
    ∃ w, cs = Text.trimRight cs ++ w ∧ ∀ c ∈ w, isBlank c := by
  refine ⟨(cs.reverse.takeWhile isBlank).reverse, ?_, fun c hc ↦ ?_⟩
  · rw [Text.trimRight, ← List.reverse_append, List.takeWhile_append_dropWhile,
      List.reverse_reverse]
  · exact List.all_eq_true.mp List.all_takeWhile c (List.mem_reverse.mp hc)

/-- At most an operator is dropped. -/
theorem exists_dropTrailingOperator_append (cs : List Char) :
    ∃ o : Option Char, cs = dropTrailingOperator cs ++ o.toList ∧ ∀ c ∈ o, isOperatorChar c := by
  rw [dropTrailingOperator]
  split
  · next hlast =>
    rcases List.eq_nil_or_concat cs with rfl | ⟨cs, c, rfl⟩
    · cases hlast
    · rw [List.concat_eq_append, List.getLast?_concat, Option.any_some] at hlast
      refine ⟨some c, ?_, fun d hd ↦ ?_⟩
      · rw [List.concat_eq_append, List.dropLast_concat, Option.toList_some]
      · cases hd
        exact hlast
  · exact ⟨none, (List.append_nil cs).symm, fun c hc ↦ by cases hc⟩

/-- Once the percent signs are dropped, an operator and blanks are taken from the end, and closing
parentheses put in their place. -/
theorem exists_mend_eq (cs : List Char) :
    ∃ kept w n, ∃ o : Option Char, dropPercentsAfter none cs = kept ++ (o.toList ++ w) ∧
      mend cs = kept ++ List.replicate n ')' ∧ (∀ c ∈ o, isOperatorChar c) ∧
      ∀ c ∈ w, isBlank c := by
  obtain ⟨w, htrim, hw⟩ := exists_trimRight_append (dropPercentsAfter none cs)
  obtain ⟨o, hdrop, ho⟩ :=
    exists_dropTrailingOperator_append (Text.trimRight (dropPercentsAfter none cs))
  refine ⟨_, w, _, o, ?_, rfl, ho, hw⟩
  rw [← List.append_assoc, ← hdrop]
  exact htrim

/-- The numbers of a text stay as they are when it is repaired. -/
theorem literals_mend (cs : List Char) : literals (mend cs) = literals cs := by
  obtain ⟨kept, w, n, o, hdrop, hmend, ho, hw⟩ := exists_mend_eq cs
  have hclosings : ∀ c ∈ List.replicate n ')', isLiteralChar c = false := by
    intro c hc
    rw [List.eq_of_mem_replicate hc]
    rfl
  have htaken : ∀ c ∈ o.toList ++ w, isLiteralChar c = false := by
    intro c hc
    rcases List.mem_append.mp hc with hc | hc
    · rw [← Bool.not_eq_true]
      intro hliteral
      have hoperator := ho c (Option.mem_toList.mp hc)
      rw [isOperatorChar_of_isLiteralChar hliteral] at hoperator
      cases hoperator
    · exact Display.isLiteralChar_of_isBlank (hw c hc)
  rw [hmend, Expression.literals_append_marks hclosings, ← literals_dropPercents cs none, hdrop,
    Expression.literals_append_marks htaken]

/-- What is neither a percent sign nor a blank nor a closing parenthesis stays as it is, except that
an operator can be lost at the end. -/
theorem exists_filter_mend {p : Char → Bool} (hpercent : p '%' = false) (hclosing : p ')' = false)
    (hblank : ∀ c, isBlank c → p c = false) (cs : List Char) :
    ∃ o : Option Char, (∀ c ∈ o, isOperatorChar c) ∧
      cs.filter p = (mend cs).filter p ++ o.toList.filter p := by
  obtain ⟨kept, w, n, o, hdrop, hmend, ho, hw⟩ := exists_mend_eq cs
  have hclosings : (List.replicate n ')').filter p = [] := by
    rw [List.filter_replicate, if_neg (by simp [hclosing])]
  have hblanks : w.filter p = [] := by
    rw [List.filter_eq_nil_iff]
    intro c hc
    simp [hblank c (hw c hc)]
  refine ⟨o, ho, ?_⟩
  rw [hmend, List.filter_append, hclosings, List.append_nil, ← filter_dropPercents hpercent none,
    hdrop, List.filter_append, List.filter_append, hblanks, List.append_nil]

/-! ### Repairs that are offered -/

/-- Every parenthesis has its partner exactly if no closing one lacks it and as many are opened as
closed. -/
theorem balancedFrom_iff_firstSplit {depth : Nat} (seen : List Char) {rest : List Char}
    (hdepth : seen.count '(' = seen.count ')' + depth) :
    balancedFrom depth rest ↔ firstSplit Problem.unmatchedClose.width seen rest = none ∧
      depth + rest.count '(' = rest.count ')' := by
  induction rest generalizing depth seen with
  | nil => simp [balancedFrom, firstSplit]
  | cons c rest ih =>
    rw [balancedFrom, firstSplit, Problem.width, Problem.widthAt]
    by_cases hopening : c = '('
    · subst hopening
      have hseen : ('(' :: seen).count '(' = ('(' :: seen).count ')' + (depth + 1) := by
        rw [List.count_cons_self, List.count_cons_of_ne (by decide)]
        omega
      rw [if_pos (by decide), if_neg (by simp), ih _ hseen, List.count_cons_self,
        List.count_cons_of_ne (by decide), Nat.add_right_comm, Nat.add_assoc]
    · rw [if_neg (by simpa using hopening), List.count_cons_of_ne hopening]
      by_cases hclosing : c = ')'
      · subst hclosing
        rw [if_pos (by decide), List.count_cons_self]
        cases depth with
        | zero =>
          have hunmatched : seen.count '(' ≤ seen.count ')' := by omega
          rw [if_pos (by simpa using hunmatched)]
          simp
        | succ depth =>
          have hpartner : ¬ seen.count '(' ≤ seen.count ')' := by omega
          have hseen : (')' :: seen).count '(' = (')' :: seen).count ')' + depth := by
            rw [List.count_cons_self, List.count_cons_of_ne (by decide)]
            omega
          have hcount : depth + 1 + rest.count '(' = rest.count ')' + 1 ↔
              depth + rest.count '(' = rest.count ')' := by omega
          rw [if_neg (by simpa using hpartner), hcount, ← ih _ hseen]
          simp
      · have hseen : (c :: seen).count '(' = (c :: seen).count ')' + depth := by
          rwa [List.count_cons_of_ne hopening, List.count_cons_of_ne hclosing]
        rw [if_neg (by simpa using hclosing), if_neg (by simp [hclosing]), ih _ hseen,
          List.count_cons_of_ne hclosing]

/-- In a text with a value every parenthesis has its partner. -/
theorem balancedFrom_of_leads {cs : List Char} (h : Leads cs (.operator 0)) :
    balancedFrom 0 cs := by
  rw [balancedFrom_iff_firstSplit [] rfl]
  refine ⟨Problem.find_unmatchedClose h, ?_⟩
  rw [h.count_opening, Shape.depth]
  omega

/-- A repair that is offered has a value, so it is not empty. -/
theorem mend_of_suggestion {b fixed : List Char} {e : Expression.CalcError}
    (hfixed : (diagnose b e).suggestion = some fixed) :
    fixed = mend b ∧ fixed ≠ [] ∧ ∃ x, evaluate (plain fixed) = .ok x := by
  unfold diagnose at hfixed
  split at hfixed
  · cases hfixed
  · dsimp only at hfixed
    split at hfixed
    · next hrepair =>
      cases hfixed
      unfold repair? at hrepair
      split at hrepair
      · cases hrepair
      · split at hrepair
        · cases hrepair
        · next hdone =>
          split at hrepair
          · next x hx =>
            cases hrepair
            simp only [Bool.or_eq_true, List.isEmpty_iff, not_or] at hdone
            exact ⟨rfl, hdone.2, x, hx⟩
          · cases hrepair
    · cases hfixed

end DeskCalculator.Diagnosis
