import DeskCalculator.Proofs.Diagnosis.Located

/-!
# Spans lie in the text

Each problem begins at some character and says how many characters it covers: never none, and never
more than there are from that place on. So the text is cut at two places that are in order and in
it, whatever the error is that the text failed with. `cut?` is a cut that is refused at other
places, and `depth?` a count of open parentheses that is refused where it would fall below zero.
-/

namespace DeskCalculator.Diagnosis

open Expression (isLiteralChar isOperatorChar)
open Text (isBlank)

/-! ### Cuts -/

/-- A text cut at two places, if the second is not before the first and not beyond the end. -/
def cut? (cs : List Char) (start stop : Nat) : Option Split :=
  if start ≤ stop ∧ stop ≤ cs.length then
    some ⟨cs.take start, (cs.take stop).drop start, cs.drop stop⟩
  else none

/-- The places where the first span that `width` finds begins and ends. -/
def firstSpan (width : List Char → List Char → Option Nat) :
    (seen rest : List Char) → Option (Nat × Nat)
  | _, [] => none
  | seen, c :: rest =>
    match width seen (c :: rest) with
    | some n => some (seen.length, seen.length + n)
    | none => firstSpan width (c :: seen) rest

/-- The places where the first span with the problem begins and ends. -/
def Problem.span? (p : Problem) (cs : List Char) : Option (Nat × Nat) :=
  firstSpan p.width [] cs

/-- A cut inside a text takes as many characters as it says. -/
private theorem cut?_append (before : List Char) {rest : List Char} {n : Nat}
    (h : n ≤ rest.length) : cut? (before ++ rest) before.length (before.length + n) =
      some ⟨before, rest.take n, rest.drop n⟩ := by
  rw [cut?, if_pos (by simpa using h), List.take_left, List.take_length_add_append, List.drop_left,
    List.drop_length_add_append]

section

variable {width : List Char → List Char → Option Nat}

/-- A span that covers something and no more than there is lies in the text. -/
private theorem firstSpan_bounds
    (hwidth : ∀ seen c rest, ∀ n ∈ width seen (c :: rest), 0 < n ∧ n ≤ rest.length + 1)
    {seen rest : List Char} {s : Nat × Nat} (h : firstSpan width seen rest = some s) :
    s.1 < s.2 ∧ s.2 ≤ seen.length + rest.length := by
  induction rest generalizing seen with
  | nil => cases h
  | cons c rest ih =>
    rw [firstSpan] at h
    split at h
    · next n hn =>
      obtain rfl := Option.some.inj h
      have hbounds := hwidth seen c rest n hn
      rw [List.length_cons]
      dsimp only
      omega
    · have hbounds := ih h
      rw [List.length_cons] at hbounds ⊢
      omega

/-- The first split is the cut at the places of the first span. -/
private theorem firstSplit_eq_cut?
    (hwidth : ∀ seen c rest, ∀ n ∈ width seen (c :: rest), n ≤ rest.length + 1)
    (seen rest : List Char) :
    firstSplit width seen rest =
      (firstSpan width seen rest).bind fun s ↦ cut? (seen.reverse ++ rest) s.1 s.2 := by
  induction rest generalizing seen with
  | nil => rfl
  | cons c rest ih =>
    rw [firstSplit, firstSpan]
    cases hn : width seen (c :: rest) with
    | some n =>
      have hle : n ≤ (c :: rest).length := hwidth seen c rest n hn
      have hcut := cut?_append seen.reverse hle
      rw [List.length_reverse] at hcut
      exact hcut.symm
    | none =>
      dsimp only
      rw [ih, List.reverse_cons, List.append_assoc, List.singleton_append]

end

/-! ### Widths -/

/-- The next character that is not blank stands in the text. -/
theorem pairWidth_le {rest : List Char} {p : Char → Bool} (h : (solid? rest).any p) :
    pairWidth rest ≤ rest.length + 1 := by
  obtain ⟨d, hd, -⟩ := (Option.any_eq_true _ _).mp h
  have hlt : (rest.takeWhile isBlank).length < rest.length := by
    rw [solid?, List.find?_eq_some_iff_append] at hd
    obtain ⟨hd, before, after, rfl, hbefore⟩ := hd
    have hrun : (before ++ d :: after).takeWhile isBlank = before := by
      rw [List.takeWhile_append_of_pos (by simpa using hbefore), List.takeWhile_cons_of_neg
        (by simpa using hd), List.append_nil]
    rw [hrun, List.length_append, List.length_cons]
    omega
  rw [pairWidth]
  omega

/-- A problem covers something, and no more than there is from its place on. -/
theorem Problem.widthAt_bounds {p : Problem} {seen rest : List Char} {c : Char} {n : Nat}
    (h : p.widthAt seen c rest = some n) : 0 < n ∧ n ≤ rest.length + 1 := by
  have hpair : 0 < pairWidth rest := Nat.succ_pos _
  cases p with
  | unknownSymbol =>
    rw [widthAt] at h
    split at h <;> cases h
    omega
  | misplacedPercent =>
    rw [widthAt] at h
    split at h <;> cases h
    omega
  | invalidNumber =>
    dsimp only [widthAt] at h
    split at h
    · cases h
    · next hrun =>
      cases h
      have hne : leadingRun (c :: rest) ≠ [] := by
        intro hnil
        simp [hnil] at hrun
      exact ⟨List.length_pos_iff.mpr hne, (List.takeWhile_prefix _).length_le⟩
  | strayOperator =>
    rw [widthAt] at h
    split at h
    · cases h
      omega
    · split at h
      · next hstray =>
        cases h
        exact ⟨hpair, pairWidth_le (Bool.and_eq_true_iff.mp hstray).2⟩
      · cases h
  | missingOperator =>
    rw [widthAt] at h
    split at h
    · next hmissing =>
      cases h
      exact ⟨hpair, pairWidth_le hmissing⟩
    · cases h
  | unmatchedClose =>
    rw [widthAt] at h
    split at h <;> cases h
    omega
  | emptyParens =>
    rw [widthAt] at h
    split at h
    · next hempty =>
      cases h
      exact ⟨hpair, pairWidth_le (Bool.and_eq_true_iff.mp hempty).2⟩
    · cases h
  | trailingOperator =>
    rw [widthAt] at h
    split at h <;> cases h
    omega
  | unclosedParen =>
    rw [widthAt] at h
    split at h <;> cases h
    omega
  | divisionByZero =>
    dsimp only [widthAt] at h
    split at h
    · cases h
      have hrun := (List.takeWhile_prefix (l := rest.drop (rest.takeWhile isBlank).length)
        isLiteralChar).length_le
      have hgap := (List.takeWhile_prefix (l := rest) isBlank).length_le
      rw [List.length_drop] at hrun
      rw [leadingRun]
      omega
    · cases h

/-- Where a problem is found the text is cut, and the cut is not refused. -/
theorem Problem.find_eq_cut? (p : Problem) (cs : List Char) :
    p.find cs = (p.span? cs).bind fun s ↦ cut? cs s.1 s.2 :=
  firstSplit_eq_cut? (fun _ _ _ _ hn ↦ (widthAt_bounds hn).2) [] cs

/-- A problem lies in the text. -/
theorem Problem.span?_bounds {p : Problem} {cs : List Char} {s : Nat × Nat}
    (h : p.span? cs = some s) : s.1 < s.2 ∧ s.2 ≤ cs.length := by
  have hbounds := firstSpan_bounds (fun _ _ _ _ hn ↦ widthAt_bounds hn) h
  rwa [List.length_nil, Nat.zero_add] at hbounds

/-! ### The count of open parentheses -/

/-- How many parentheses are open after a character. Nothing can be closed where none is open. -/
def countParen? (depth : Nat) (c : Char) : Option Nat :=
  if c = '(' then some (depth + 1)
  else if c = ')' then if depth = 0 then none else some (depth - 1)
  else some depth

/-- How many parentheses are open after a text, if the count never falls below zero. -/
def depth? (cs : List Char) : Option Nat :=
  cs.foldlM countParen? 0

/-- Whether a character is a parenthesis. -/
def isParen (c : Char) : Bool :=
  c == '(' || c == ')'

private theorem isParen_iff {c : Char} : isParen c ↔ c = '(' ∨ c = ')' := by
  rw [isParen, Bool.or_eq_true, beq_iff_eq, beq_iff_eq]

/-- Only parentheses are counted. -/
theorem depth?_filter (cs : List Char) : depth? (cs.filter isParen) = depth? cs := by
  have hstep (depth : Nat) {c : Char} (hc : ¬ isParen c) : countParen? depth c = some depth := by
    rw [isParen_iff, not_or] at hc
    rw [countParen?, if_neg hc.1, if_neg hc.2]
  unfold depth?
  generalize 0 = depth
  induction cs generalizing depth with
  | nil => rfl
  | cons c cs ih =>
    rw [List.filter_cons, List.foldlM_cons]
    split
    · rw [List.foldlM_cons]
      simp only [ih]
    · next hc => rw [hstep depth hc, ih, Option.bind_eq_bind, Option.bind_some]

/-- Where the count does not fall below zero nothing is passed over. -/
private theorem openAfter_of_foldlM {depth n : Nat} {cs : List Char}
    (h : cs.foldlM countParen? depth = some n) : openAfter depth cs = n := by
  induction cs generalizing depth with
  | nil => exact Option.some.inj h
  | cons c cs ih =>
    rw [List.foldlM_cons] at h
    obtain ⟨next, hnext, hrest⟩ := Option.bind_eq_some_iff.mp h
    have hstep :
        (if c == '(' then depth + 1 else if c == ')' then depth - 1 else depth) = next := by
      unfold countParen? at hnext
      grind
    rw [openAfter, List.foldl_cons, hstep]
    exact ih hrest

/-- The count goes through a text in which no closing parenthesis lacks its partner. -/
theorem depth?_eq_openAfter {cs : List Char} (h : Problem.unmatchedClose.find cs = none) :
    depth? cs = some (openAfter 0 cs) := by
  induction cs using List.reverseRecOn with
  | nil => rfl
  | append_singleton cs c ih =>
    obtain ⟨hcs, hc⟩ := (firstSplit_concat_eq_none_iff fun _ _ _ ↦ rfl).mp h
    have hcount := openAfter_add_count hcs
    have hpartner : c = ')' → openAfter 0 cs ≠ 0 := by
      rintro rfl hzero
      have hlt : cs.count ')' < cs.count '(' := by
        simpa [Problem.width, Problem.widthAt] using hc
      omega
    have hlast : depth? (cs ++ [c]) = countParen? (openAfter 0 cs) c := by
      rw [depth?, List.foldlM_append, ← depth?, ih hcs, Option.bind_eq_bind, Option.bind_some,
        List.foldlM_cons]
      exact bind_pure _
    rw [hlast, openAfter_concat, countParen?]
    split
    · rfl
    · split
      · next hclosing => rw [if_neg (hpartner hclosing)]
      · rfl

/-- What is seen from its place back is not found before the first place where it is found. -/
private theorem exists_of_firstSplit {width : List Char → List Char → Option Nat}
    (hback : ∀ seen c rest, width seen (c :: rest) = width seen [c]) {seen rest : List Char}
    {s : Split} (h : firstSplit width seen rest = some s) :
    ∃ before c, s.before = seen.reverse ++ before ∧ firstSplit width seen before = none ∧
      (width (before.reverse ++ seen) [c]).isSome := by
  induction rest generalizing seen with
  | nil => cases h
  | cons c rest ih =>
    rw [firstSplit] at h
    split at h
    · next n hn =>
      obtain rfl := Option.some.inj h
      rw [hback] at hn
      exact ⟨[], c, (List.append_nil _).symm, rfl, by simp [hn]⟩
    · next hnone =>
      obtain ⟨before, d, hbefore, hfind, hwidth⟩ := ih h
      refine ⟨c :: before, d, ?_, ?_, ?_⟩
      · rw [hbefore, List.reverse_cons, List.append_assoc, List.singleton_append]
      · rw [firstSplit, hback, ← hback seen c rest, hnone]
        exact hfind
      · rwa [List.reverse_cons, List.append_assoc, List.singleton_append]

/-- The count goes on up to the first closing parenthesis without a partner, and is zero there. -/
private theorem depth?_before {cs : List Char} {s : Split}
    (h : Problem.unmatchedClose.find cs = some s) : depth? s.before = some 0 := by
  obtain ⟨before, c, hbefore, hfind, hwidth⟩ := exists_of_firstSplit (fun _ _ _ ↦ rfl) h
  have hcount := openAfter_add_count hfind
  have hunmatched : before.count '(' ≤ before.count ')' := by
    simp [Problem.width, Problem.widthAt] at hwidth
    exact hwidth.2
  have hzero : openAfter 0 before = 0 := by omega
  rw [hbefore, List.reverse_nil, List.nil_append, depth?_eq_openAfter hfind, hzero]

/-- What a repair keeps has the parentheses of the text. -/
private theorem filter_isParen_kept (cs : List Char) :
    (dropTrailingOperator (Text.trimRight (dropPercentsAfter none cs))).filter isParen =
      cs.filter isParen := by
  obtain ⟨w, htrim, hw⟩ := exists_trimRight_append (dropPercentsAfter none cs)
  obtain ⟨o, hdrop, ho⟩ :=
    exists_dropTrailingOperator_append (Text.trimRight (dropPercentsAfter none cs))
  have hblanks : w.filter isParen = [] := by
    refine List.filter_eq_nil_iff.mpr fun c hc hparen ↦ ?_
    rcases isParen_iff.mp hparen with rfl | rfl <;> cases hw _ hc
  have hoperator : o.toList.filter isParen = [] := by
    refine List.filter_eq_nil_iff.mpr fun c hc hparen ↦ ?_
    rcases isParen_iff.mp hparen with rfl | rfl <;> cases ho _ (Option.mem_toList.mp hc)
  calc
    _ = (Text.trimRight (dropPercentsAfter none cs)).filter isParen := by
      conv_rhs => rw [hdrop, List.filter_append, hoperator, List.append_nil]
    _ = (dropPercentsAfter none cs).filter isParen := by
      conv_rhs => rw [htrim, List.filter_append, hblanks, List.append_nil]
    _ = cs.filter isParen := filter_dropPercents rfl none cs

/-- In a text in which no closing parenthesis lacks its partner a repair counts exactly how many are
to be closed. -/
private theorem exists_mend_of_find {cs : List Char} (h : Problem.unmatchedClose.find cs = none) :
    ∃ kept n, mend cs = kept ++ List.replicate n ')' ∧ depth? kept = some n := by
  have hdepth : depth? (dropTrailingOperator (Text.trimRight (dropPercentsAfter none cs))) =
      some (openAfter 0 cs) := by
    rw [← depth?_filter, filter_isParen_kept, depth?_filter, depth?_eq_openAfter h]
  refine ⟨_, _, ?_, hdepth⟩
  rw [← openAfter_of_foldlM hdepth]
  rfl

/-! ### The diagnosis -/

/-- The details show a problem that is found. -/
private theorem exists_of_details {cs : List Char} {e : Expression.CalcError} {s : Split}
    (h : (diagnose cs e).details = some s) :
    ∃ p ∈ searchOrder e, p.find cs = some s ∧ cs.all isBlank = false := by
  unfold diagnose at h
  split at h
  · cases h
  · next hblank =>
    have hlocate : (locate cs e).map Prod.snd = some s := by
      dsimp only at h
      split at h <;> exact h
    obtain ⟨f, hf, rfl⟩ := Option.map_eq_some_iff.mp hlocate
    obtain ⟨p, hp, hfind⟩ := List.exists_of_findSome?_eq_some hf
    obtain ⟨s, hs, rfl⟩ := Option.map_eq_some_iff.mp hfind
    exact ⟨p, hp, hs, by simpa using hblank⟩

/-- Whatever error an expression is said to have failed with, each problem is found by a cut at two
places of the expression, the count of open parentheses does not fall below zero before the first
closing one without a partner or in a repair, and the details are the expression around a span that
is not empty. A blank expression has no details. -/
theorem diagnose_splits_exactly (cs : List Char) (e : Expression.CalcError) :
    (∀ p : Problem, p.find cs = (p.span? cs).bind (fun s ↦ cut? cs s.1 s.2) ∧
      ∀ s, p.span? cs = some s → s.1 < s.2 ∧ s.2 ≤ cs.length) ∧
    (∀ s, Problem.unmatchedClose.find cs = some s → depth? s.before = some 0) ∧
    (Problem.unmatchedClose.find cs = none →
      ∃ kept n, mend cs = kept ++ List.replicate n ')' ∧ depth? kept = some n) ∧
    (∀ s, (diagnose cs e).details = some s →
      s.before ++ s.span ++ s.after = cs ∧ s.span ≠ []) ∧
    (cs.all isBlank → (diagnose cs e).details = none) := by
  refine ⟨fun p ↦ ⟨p.find_eq_cut? cs, fun s hs ↦ Problem.span?_bounds hs⟩,
    fun s hs ↦ depth?_before hs, exists_mend_of_find, fun s hs ↦ ⟨details_append hs, ?_⟩, fun hblank ↦ ?_⟩
  · obtain ⟨p, -, hfind, -⟩ := exists_of_details hs
    rw [p.find_eq_cut? cs] at hfind
    obtain ⟨⟨start, stop⟩, hspan, hcut⟩ := Option.bind_eq_some_iff.mp hfind
    obtain ⟨hlt, hle⟩ := Problem.span?_bounds hspan
    rw [cut?, if_pos ⟨Nat.le_of_lt hlt, hle⟩] at hcut
    obtain rfl := Option.some.inj hcut
    rw [← List.length_pos_iff, List.length_drop, List.length_take]
    omega
  · rw [diagnose, if_pos hblank]

/-- The division by zero is marked with the blanks inside it, before a letter that is no ASCII. A
text of blanks alone has nothing to mark. -/
theorem diagnose_splits_division_over_blanks :
    let shown : Split := ⟨"(7 ".toList, "÷ \t00".toList, "+é)".toList⟩
    let e : Expression.CalcError := .invalidExpression .nonFinite
    (diagnose "(7 ÷ \t00+é)".toList e).details = some shown ∧
      shown.before ++ shown.span ++ shown.after = "(7 ÷ \t00+é)".toList ∧ shown.span ≠ [] ∧
      (diagnose "\u3000 ".toList e).details = none := by
  intro shown e
  have hshown : (diagnose "(7 ÷ \t00+é)".toList e).details = some shown := by decide +kernel
  have hblank : "\u3000 ".toList.all isBlank := by decide +kernel
  obtain ⟨-, -, -, hdetails, -⟩ := diagnose_splits_exactly "(7 ÷ \t00+é)".toList e
  obtain ⟨-, -, -, -, hnone⟩ := diagnose_splits_exactly "\u3000 ".toList e
  exact ⟨hshown, (hdetails shown hshown).1, (hdetails shown hshown).2, hnone hblank⟩

end DeskCalculator.Diagnosis
