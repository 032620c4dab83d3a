import DeskCalculator.Proofs.Diagnosis.Kept
import Mathlib.Data.List.Chain

/-!
# Expressions without problems

Except for a division by zero, whether an expression has one of the problems that are looked for
can be seen from four things: which characters stand next to one another, the number literals, the
parentheses, and the last character. `Sound` says that all four are in order. The beginning of an
expression counts as an opening parenthesis.
-/

namespace DeskCalculator.Diagnosis

open Expression (isLiteralChar isNumeral isOperatorChar isMisplacedPercent literals readNumeral?)
open Text (isBlank)

/-- Whether a character can stand in an expression and is not blank. -/
def isSolid (c : Char) : Bool :=
  isKnown c && !isBlank c

/-- Neighbours that are a problem, the left one first. -/
inductive Clash : Char → Char → Prop where
  | misplacedPercent {c : Char} (hc : isOperatorChar c ∨ c = '(') : Clash c '%'
  | leadingOperator {d : Char} (hd : isFactorOperator d) : Clash '(' d
  | operators {c d : Char} (hc : isOperatorChar c) (hd : isOperatorChar d) (hminus : d ≠ '-') :
    Clash c d
  | openingAfterValue {c : Char} (hc : endsValue c) : Clash c '('
  | numberAfterClosing {d : Char} (hd : isLiteralChar d) : Clash ')' d
  | emptyParens : Clash '(' ')'

/-- An expression without problems, except that it can divide by a literal zero. -/
structure Sound (cs : List Char) : Prop where
  neighbours : ('(' :: cs).IsChain fun c d ↦ ¬ Clash c d
  numerals : ∀ run ∈ literals cs, isNumeral run
  balanced : balancedFrom 0 cs
  complete : cs.getLast?.any isOperatorChar = false

/-! ### Places -/

variable {before after cs : List Char} {c d : Char}

/-- Neighbours are related exactly if each character is to what stands before it. -/
theorem isChain_cons_iff {R : Char → Char → Prop} :
    (c :: cs).IsChain R ↔
      ∀ before d after, cs = before ++ d :: after → R (before.getLast?.getD c) d := by
  induction cs generalizing c with
  | nil => simp
  | cons e cs ih =>
    rw [List.isChain_cons_cons, ih]
    constructor
    · rintro ⟨hfirst, hrest⟩ before d after heq
      cases before with
      | nil =>
        cases heq
        exact hfirst
      | cons f before =>
        cases heq
        rw [List.getLast?_cons, Option.getD_some]
        exact hrest before d after rfl
    · intro h
      refine ⟨h [] e cs rfl, fun before d after heq ↦ ?_⟩
      have hlater := h (e :: before) d after (by rw [heq]; rfl)
      rwa [List.getLast?_cons, Option.getD_some] at hlater

/-- A problem is not found exactly if it begins nowhere. -/
theorem Problem.find_eq_none_iff {p : Problem} :
    p.find cs = none ↔
      ∀ before c after, cs = before ++ c :: after → p.widthAt before.reverse c after = none := by
  constructor
  · intro h before c after heq
    rw [← Option.not_isSome_iff_eq_none]
    intro hwidth
    have hfound := isSome_find_iff.mpr ⟨before, c, after, heq, hwidth⟩
    rw [h] at hfound
    cases hfound
  · exact find_eq_none

/-- What is asked of the character before a place, and holds of an opening parenthesis. -/
theorem all_solid?_reverse (h : ∀ c ∈ before.getLast?, isBlank c = false) {p : Char → Bool}
    (hp : p '(') : (solid? before.reverse).all p = p (before.getLast?.getD '(') := by
  rcases List.eq_nil_or_concat before with rfl | ⟨before, c, rfl⟩
  · exact hp.symm
  · rw [List.concat_eq_append] at h ⊢
    rw [Display.solid?_reverse (h c List.getLast?_concat) (by simp), List.getLast?_concat]
    rfl

/-- What is asked of the character after a place. -/
theorem any_solid?_cons (h : isBlank d = false) {p : Char → Bool} :
    (solid? (d :: after)).any p = p d := by
  rw [Display.solid?_cons h, Option.any_some]

/-! ### Neighbours -/

/-- Neighbours that clash are found, or the expression begins with a closing parenthesis. -/
theorem not_clash_of_find (hblank : ∀ c ∈ cs, isBlank c = false) (hhead : cs.head? ≠ some ')')
    (hpercent : Problem.misplacedPercent.find cs = none)
    (hstray : Problem.strayOperator.find cs = none)
    (hmissing : Problem.missingOperator.find cs = none)
    (hempty : Problem.emptyParens.find cs = none) (heq : cs = before ++ d :: after) :
    ¬ Clash (before.getLast?.getD '(') d := by
  intro hclash
  subst heq
  have hbefore : ∀ c ∈ before.getLast?, isBlank c = false := fun c hc ↦
    hblank c (by simp [List.mem_of_getLast? hc])
  have hd : isBlank d = false := hblank d (by simp)
  -- What stands before is a character of the expression, unless it is an opening parenthesis.
  have hlast (hne : before.getLast?.getD '(' ≠ '(') :
      ∃ b, before = b ++ [before.getLast?.getD '('] := by
    cases hlast : before.getLast? with
    | none =>
      rw [hlast] at hne
      exact absurd rfl hne
    | some c => exact List.getLast?_eq_some_iff.mp hlast
  generalize hc : before.getLast?.getD '(' = c at hclash hlast
  cases hclash with
  | misplacedPercent hoperator =>
    have hnone := Problem.find_eq_none_iff.mp hpercent before '%' after rfl
    have hmisplaced : isMisplacedPercent (solid? before.reverse) '%' := by
      rw [isMisplacedPercent, all_solid?_reverse hbefore rfl, hc]
      simpa using hoperator
    rw [Problem.widthAt, if_pos hmisplaced] at hnone
    cases hnone
  | leadingOperator hfactor =>
    have hnone := Problem.find_eq_none_iff.mp hstray before d after rfl
    have hleads : isFactorOperator d && (solid? before.reverse).all (· == '(') := by
      rw [all_solid?_reverse hbefore rfl, hc, hfactor]
      rfl
    rw [Problem.widthAt, if_pos hleads] at hnone
    cases hnone
  | operators hoperator hd' hminus =>
    obtain ⟨b, rfl⟩ := hlast (by rintro rfl; cases hoperator)
    have hnone := Problem.find_eq_none_iff.mp hstray b c (d :: after) (by simp)
    have hnext : isOperatorChar c &&
        (solid? (d :: after)).any fun d ↦ isOperatorChar d && d != '-' := by
      rw [any_solid?_cons hd, hoperator, hd']
      simpa using hminus
    rw [Problem.widthAt, if_pos hnext] at hnone
    split at hnone <;> cases hnone
  | openingAfterValue hvalue =>
    obtain ⟨b, rfl⟩ := hlast (by rintro rfl; cases hvalue)
    have hnone := Problem.find_eq_none_iff.mp hmissing b c ('(' :: after) (by simp)
    have hnext : (solid? ('(' :: after)).any fun d ↦
        endsValue c && d == '(' || c == ')' && isLiteralChar d := by
      rw [any_solid?_cons hd, hvalue]
      rfl
    rw [Problem.widthAt, if_pos hnext] at hnone
    cases hnone
  | numberAfterClosing hliteral =>
    obtain ⟨b, rfl⟩ := hlast (by decide)
    have hnone := Problem.find_eq_none_iff.mp hmissing b ')' (d :: after) (by simp)
    have hnext : (solid? (d :: after)).any fun d ↦
        endsValue ')' && d == '(' || ')' == ')' && isLiteralChar d := by
      rw [any_solid?_cons hd, hliteral]
      simp
    rw [Problem.widthAt, if_pos hnext] at hnone
    cases hnone
  | emptyParens =>
    rcases List.eq_nil_or_concat before with rfl | ⟨b, e, rfl⟩
    · exact hhead rfl
    · rw [List.concat_eq_append] at hc hempty
      rw [List.getLast?_concat, Option.getD_some] at hc
      subst hc
      have hnone := Problem.find_eq_none_iff.mp hempty b '(' (')' :: after) (by simp)
      have hnext : '(' == '(' && (solid? (')' :: after)).any (· == ')') := by
        rw [any_solid?_cons hd]
        rfl
      rw [Problem.widthAt, if_pos hnext] at hnone
      cases hnone

section

variable (hblank : ∀ c ∈ cs, isBlank c = false)
  (hchain : ('(' :: cs).IsChain fun c d ↦ ¬ Clash c d)
include hblank hchain

/-- The character before a place does not clash. -/
theorem not_clash_before (heq : cs = before ++ d :: after) :
    (∀ c ∈ before.getLast?, isBlank c = false) ∧ ¬ Clash (before.getLast?.getD '(') d :=
  ⟨fun c hc ↦ hblank c (by simp [heq, List.mem_of_getLast? hc]),
    isChain_cons_iff.mp hchain before d after heq⟩

/-- Nothing that clashes stands after a place. -/
theorem any_solid?_after (heq : cs = before ++ c :: after) {p : Char → Bool}
    (hp : ∀ d, p d → Clash c d) : (solid? after).any p = false := by
  cases after with
  | nil => rfl
  | cons d after =>
    rw [any_solid?_cons (hblank d (by simp [heq])), ← Bool.not_eq_true]
    intro hd
    have hclash := isChain_cons_iff.mp hchain (before ++ [c]) d after (by simp [heq])
    rw [List.getLast?_concat, Option.getD_some] at hclash
    exact hclash (hp d hd)

private theorem find_misplacedPercent_of_isChain : Problem.misplacedPercent.find cs = none := by
  refine Problem.find_eq_none fun before d after heq ↦ ?_
  obtain ⟨hbefore, hclash⟩ := not_clash_before hblank hchain heq
  rw [Problem.widthAt, if_neg]
  intro hmisplaced
  rw [isMisplacedPercent, all_solid?_reverse hbefore rfl, Bool.and_eq_true, Bool.or_eq_true,
    beq_iff_eq, beq_iff_eq] at hmisplaced
  obtain ⟨rfl, hoperator⟩ := hmisplaced
  exact hclash (.misplacedPercent hoperator)

private theorem find_strayOperator_of_isChain : Problem.strayOperator.find cs = none := by
  refine Problem.find_eq_none fun before d after heq ↦ ?_
  obtain ⟨hbefore, hclash⟩ := not_clash_before hblank hchain heq
  rw [Problem.widthAt, if_neg, if_neg]
  · intro hnext
    rw [Bool.and_eq_true] at hnext
    obtain ⟨hd, hnext⟩ := hnext
    rw [any_solid?_after hblank hchain heq] at hnext
    · cases hnext
    · intro e he
      rw [Bool.and_eq_true, bne_iff_ne] at he
      exact .operators hd he.1 he.2
  · intro hleads
    rw [all_solid?_reverse hbefore rfl, Bool.and_eq_true, beq_iff_eq] at hleads
    obtain ⟨hd, hopening⟩ := hleads
    rw [hopening] at hclash
    exact hclash (.leadingOperator hd)

private theorem find_missingOperator_of_isChain : Problem.missingOperator.find cs = none := by
  refine Problem.find_eq_none fun before d after heq ↦ ?_
  rw [Problem.widthAt, if_neg]
  intro hnext
  rw [any_solid?_after hblank hchain heq] at hnext
  · cases hnext
  · intro e he
    rw [Bool.or_eq_true, Bool.and_eq_true, Bool.and_eq_true, beq_iff_eq, beq_iff_eq] at he
    rcases he with ⟨hd, rfl⟩ | ⟨rfl, he⟩
    · exact .openingAfterValue hd
    · exact .numberAfterClosing he

private theorem find_emptyParens_of_isChain : Problem.emptyParens.find cs = none := by
  refine Problem.find_eq_none fun before d after heq ↦ ?_
  rw [Problem.widthAt, if_neg]
  intro hempty
  rw [Bool.and_eq_true, beq_iff_eq] at hempty
  obtain ⟨rfl, hnext⟩ := hempty
  rw [any_solid?_after hblank hchain heq] at hnext
  · cases hnext
  · intro e he
    obtain rfl := beq_iff_eq.mp he
    exact .emptyParens

end

/-! ### Numbers, parentheses and the end -/

/-- A number that is not written correctly is found exactly if there is one. -/
theorem find_invalidNumber_iff :
    Problem.invalidNumber.find cs = none ↔ ∀ run ∈ literals cs, isNumeral run := by
  have hnumeral (run : List Char) : readNumeral? run = none ↔ ¬ isNumeral run := by
    rw [readNumeral?]
    split <;> simp [*]
  constructor
  · intro h run hrun
    obtain ⟨before, rest, rfl, hbefore, hne, hliteral, hends⟩ :=
      Expression.exists_of_mem_literals hrun
    obtain ⟨c, run, rfl⟩ := List.exists_cons_of_ne_nil hne
    have hnone := Problem.find_eq_none_iff.mp h before c (run ++ rest) rfl
    have hleading : leadingRun (c :: (run ++ rest)) = c :: run :=
      Expression.takeWhile_isLiteralChar hliteral hends
    have hfirst : before.reverse.head?.any isLiteralChar = false := by
      rw [List.head?_reverse, ← Bool.not_eq_true, Option.any_eq_true]
      rintro ⟨d, hd, hdliteral⟩
      rw [hbefore d hd] at hdliteral
      cases hdliteral
    rw [Problem.widthAt, hleading, hfirst] at hnone
    by_cases hread : readNumeral? (c :: run) = none
    · rw [hread] at hnone
      cases hnone
    · rwa [hnumeral, not_not] at hread
  · intro h
    refine Problem.find_eq_none fun before c after heq ↦ ?_
    cases hwidth : Problem.invalidNumber.widthAt before.reverse c after with
    | none => rfl
    | some n =>
      obtain ⟨run, hrun, hread⟩ :=
        Problem.exists_mem_literals_of_invalidNumber (by rw [hwidth]; simp)
      rw [← heq] at hrun
      exact absurd (h run hrun) ((hnumeral run).mp hread)

/-- Where `n` parentheses are open, each of them has been opened and not closed since. -/
private theorem exists_unclosed (h : Problem.unmatchedClose.find cs = none) {j : Nat}
    (hj : j < openAfter 0 cs) :
    ∃ before after, cs = before ++ '(' :: after ∧ Problem.unmatchedClose.find after = none ∧
      openAfter 0 after = j := by
  induction cs using List.reverseRecOn generalizing j with
  | nil => cases hj
  | append_singleton cs c ih =>
    obtain ⟨hcs, hc⟩ := (firstSplit_concat_eq_none_iff fun _ _ _ ↦ rfl).mp h
    -- What is unclosed before the last character, with that character after it.
    have hlater {i : Nat} (hi : i < openAfter 0 cs) (hclosing : c = ')' → 0 < i) :
        ∃ before after, cs ++ [c] = before ++ '(' :: after ∧
          Problem.unmatchedClose.find after = none ∧
          openAfter 0 after = if c = '(' then i + 1 else if c = ')' then i - 1 else i := by
      obtain ⟨before, after, rfl, hafter, hopen⟩ := ih hcs hi
      refine ⟨before, after ++ [c], by simp, ?_, by rw [openAfter_concat, hopen]⟩
      refine (firstSplit_concat_eq_none_iff fun _ _ _ ↦ rfl).mpr ⟨hafter, ?_⟩
      have hcount := openAfter_add_count hafter
      rw [Problem.width, Problem.widthAt, List.append_nil, List.count_reverse, List.count_reverse,
        if_neg]
      intro hunmatched
      rw [Bool.and_eq_true, beq_iff_eq, decide_eq_true_eq] at hunmatched
      have hpos := hclosing hunmatched.1
      omega
    rw [openAfter_concat] at hj
    by_cases hopening : c = '('
    · subst hopening
      rw [if_pos rfl] at hj
      cases j with
      | zero => exact ⟨cs, [], rfl, rfl, rfl⟩
      | succ j => simpa using hlater (i := j) (by omega) (fun h ↦ by cases h)
    · rw [if_neg hopening] at hj
      by_cases hclosing : c = ')'
      · subst hclosing
        rw [if_pos rfl] at hj
        simpa using hlater (i := j + 1) (by omega) (fun _ ↦ Nat.succ_pos j)
      · rw [if_neg hclosing] at hj
        simpa [hopening, hclosing] using hlater hj (fun h ↦ absurd h hclosing)

/-- Every parenthesis has its partner exactly if none without one is found. -/
theorem balancedFrom_iff :
    balancedFrom 0 cs ↔
      Problem.unmatchedClose.find cs = none ∧ Problem.unclosedParen.find cs = none := by
  constructor
  · intro h
    have hmatched := (balancedFrom_iff_firstSplit [] rfl).mp h
    refine ⟨hmatched.1, Problem.find_eq_none fun before c after heq ↦ ?_⟩
    rw [Problem.widthAt, if_neg]
    intro hunclosed
    rw [Bool.and_eq_true, beq_iff_eq] at hunclosed
    obtain ⟨rfl, hafter⟩ := hunclosed
    subst heq
    have hbefore := openAfter_add_count
      (Problem.find_of_append (p := .unmatchedClose) (fun _ _ _ ↦ rfl) hmatched.1)
    have hall := hmatched.2
    have hrest := count_of_balancedFrom hafter
    rw [List.count_append, List.count_append, List.count_cons_self,
      List.count_cons_of_ne (by decide)] at hall
    omega
  · rintro ⟨hmatched, hunclosed⟩
    have hcount := openAfter_add_count hmatched
    have hopen : openAfter 0 cs = 0 := by
      by_contra hne
      obtain ⟨before, after, rfl, hafter, hzero⟩ :=
        exists_unclosed hmatched (Nat.pos_of_ne_zero hne)
      have hbalanced : balancedFrom 0 after := by
        rw [balancedFrom_iff_firstSplit [] rfl]
        have hrest := openAfter_add_count hafter
        exact ⟨hafter, by omega⟩
      have hnone := Problem.find_eq_none_iff.mp hunclosed before '(' after rfl
      rw [Problem.widthAt, hbalanced] at hnone
      cases hnone
    rw [balancedFrom_iff_firstSplit [] rfl]
    exact ⟨hmatched, by omega⟩

/-- An operator at the end is found exactly if there is one. -/
theorem find_trailingOperator_iff (hblank : ∀ c ∈ cs, isBlank c = false) :
    Problem.trailingOperator.find cs = none ↔ cs.getLast?.any isOperatorChar = false := by
  rw [Problem.find_eq_none_iff]
  constructor
  · intro h
    rcases List.eq_nil_or_concat cs with rfl | ⟨cs, c, rfl⟩
    · rfl
    · rw [List.concat_eq_append] at h ⊢
      have hnone := h cs c [] rfl
      rw [List.getLast?_concat, Option.any_some, ← Bool.not_eq_true]
      intro hc
      rw [Problem.widthAt, hc] at hnone
      cases hnone
  · rintro h before c after rfl
    rw [Problem.widthAt, if_neg]
    intro htrailing
    rw [Bool.and_eq_true, List.all_eq_true] at htrailing
    cases after with
    | nil =>
      rw [List.getLast?_concat, Option.any_some, htrailing.1] at h
      cases h
    | cons d after =>
      have hd := htrailing.2 d (by simp)
      rw [hblank d (by simp)] at hd
      cases hd

/-- An expression of solid characters is sound exactly if no problem but a division by zero is
found. -/
theorem sound_iff (hsolid : ∀ c ∈ cs, isSolid c) :
    Sound cs ↔ ∀ p : Problem, p ≠ .divisionByZero → p.find cs = none := by
  have hblank : ∀ c ∈ cs, isBlank c = false := fun c hc ↦ by
    simpa using (Bool.and_eq_true_iff.mp (hsolid c hc)).2
  constructor
  · intro h p hp
    cases p with
    | unknownSymbol =>
      refine Problem.find_eq_none fun before c after heq ↦ ?_
      rw [Problem.widthAt, if_pos (Bool.and_eq_true_iff.mp (hsolid c (by simp [heq]))).1]
    | misplacedPercent => exact find_misplacedPercent_of_isChain hblank h.neighbours
    | invalidNumber => exact find_invalidNumber_iff.mpr h.numerals
    | strayOperator => exact find_strayOperator_of_isChain hblank h.neighbours
    | missingOperator => exact find_missingOperator_of_isChain hblank h.neighbours
    | unmatchedClose => exact (balancedFrom_iff.mp h.balanced).1
    | emptyParens => exact find_emptyParens_of_isChain hblank h.neighbours
    | trailingOperator => exact (find_trailingOperator_iff hblank).mpr h.complete
    | unclosedParen => exact (balancedFrom_iff.mp h.balanced).2
    | divisionByZero => exact absurd rfl hp
  · intro h
    have hbalanced : balancedFrom 0 cs :=
      balancedFrom_iff.mpr ⟨h _ (by simp), h _ (by simp)⟩
    have hhead : cs.head? ≠ some ')' := by
      intro hhead
      obtain ⟨cs, rfl⟩ := List.head?_eq_some_iff.mp hhead
      cases hbalanced
    refine ⟨isChain_cons_iff.mpr fun before d after heq ↦ ?_,
      find_invalidNumber_iff.mp (h _ (by simp)), hbalanced,
      (find_trailingOperator_iff hblank).mp (h _ (by simp))⟩
    exact not_clash_of_find hblank hhead (h _ (by simp)) (h _ (by simp)) (h _ (by simp))
      (h _ (by simp)) heq

end DeskCalculator.Diagnosis
