import DeskCalculator.Proofs.Diagnosis.Neighbours
import DeskCalculator.Proofs.Expression.Prefixes

/-!
# Operands supplied

An expression without problems is a sentence, except for one pair of neighbours that no problem
covers: an operator right before a closing parenthesis. With an operand put in between wherever they
meet, it is one. The expression is read from the left, number by number and mark by mark: what does
not clash with the character before it goes on.
-/

namespace DeskCalculator.Diagnosis

open Display (Leads isFresh)
open Expression (EndsRun Shape isLiteralChar isNumeral isOperatorChar literals plainAfter)
open Text (isBlank)

/-- Characters that stand after `prev`, with an operand before each closing parenthesis that stands
right after an operator. -/
def supplyAfter (prev : Option Char) : List Char → List Char
  | [] => []
  | c :: cs =>
    let rest := supplyAfter (some c) cs
    if c == ')' && prev.any isOperatorChar then '1' :: c :: rest else c :: rest

/-- A text with an operand before each closing parenthesis that stands right after an operator. -/
def supplyOperands (cs : List Char) : List Char :=
  supplyAfter none cs

/-! ### Supplying operands -/

section

variable (prev : Option Char) (cs ds : List Char)

/-- The operands of a longer text are those of its beginning and of what follows. -/
theorem supplyAfter_append :
    supplyAfter prev (cs ++ ds) = supplyAfter prev cs ++ supplyAfter (cs.getLast?.or prev) ds := by
  induction cs generalizing prev with
  | nil => rfl
  | cons c cs ih =>
    have hlast : (c :: cs).getLast?.or prev = cs.getLast?.or (some c) := by
      rw [List.getLast?_cons]
      cases cs.getLast? <;> rfl
    rw [hlast, List.cons_append, supplyAfter, supplyAfter, ih]
    split <;> rfl

/-- The last character stays the last one. -/
theorem getLast?_supplyAfter : (supplyAfter prev cs).getLast? = cs.getLast? := by
  induction cs generalizing prev with
  | nil => rfl
  | cons c cs ih =>
    rw [supplyAfter]
    split
    · rw [List.getLast?_cons, List.getLast?_cons, Option.getD_some, ih, List.getLast?_cons]
    · rw [List.getLast?_cons, ih, List.getLast?_cons]

/-- Only operands are put in. -/
theorem count_supplyAfter {c : Char} (hc : c ≠ '1') :
    (supplyAfter prev cs).count c = cs.count c := by
  induction cs generalizing prev with
  | nil => rfl
  | cons d cs ih =>
    rw [supplyAfter]
    split
    · rw [List.count_cons_of_ne hc.symm, List.count_cons, List.count_cons, ih]
    · rw [List.count_cons, List.count_cons, ih]

private theorem mem_supplyAfter {c : Char} (h : c ∈ supplyAfter prev cs) : c = '1' ∨ c ∈ cs := by
  by_cases hc : c = '1'
  · exact .inl hc
  · right
    rw [← List.count_pos_iff] at h ⊢
    rwa [count_supplyAfter prev cs hc] at h

/-- Without closing parentheses there is nothing to supply. -/
theorem supplyAfter_eq_self (h : ')' ∉ cs) : supplyAfter prev cs = cs := by
  induction cs generalizing prev with
  | nil => rfl
  | cons c cs ih =>
    obtain ⟨hc, hcs⟩ := not_or.mp (mt List.mem_cons.mpr h)
    rw [supplyAfter, ih _ hcs, if_neg (by simp [Ne.symm hc])]

/-- Nothing is supplied where no operator stands right before a closing parenthesis. -/
theorem supplyOperands_eq_self {cs : List Char}
    (h : ¬ ∃ before o after, cs = before ++ o :: ')' :: after ∧ isOperatorChar o) :
    supplyOperands cs = cs := by
  induction cs using List.reverseRecOn with
  | nil => rfl
  | append_singleton cs c ih =>
    have hcs : supplyOperands cs = cs := by
      refine ih fun ⟨before, o, after, heq, ho⟩ ↦ h ⟨before, o, after ++ [c], ?_, ho⟩
      simp [heq]
    rw [supplyOperands, supplyAfter_append, ← supplyOperands, hcs, Option.or_none, supplyAfter,
      if_neg, supplyAfter]
    intro hsupplied
    rw [Bool.and_eq_true, beq_iff_eq, Option.any_eq_true] at hsupplied
    obtain ⟨rfl, o, ho, hoperator⟩ := hsupplied
    obtain ⟨before, rfl⟩ := List.getLast?_eq_some_iff.mp ho
    exact h ⟨before, o, [], by simp, hoperator⟩

/-- What is balanced with the operands is balanced without them. -/
private theorem balancedFrom_supplyAfter (depth : Nat) :
    balancedFrom depth (supplyAfter prev cs) = balancedFrom depth cs := by
  induction cs generalizing prev depth with
  | nil => rfl
  | cons c cs ih =>
    have hone : balancedFrom depth ('1' :: c :: supplyAfter (some c) cs) =
        balancedFrom depth (c :: supplyAfter (some c) cs) := rfl
    have hcons : balancedFrom depth (c :: supplyAfter (some c) cs) = balancedFrom depth (c :: cs) := by
      simp only [balancedFrom, ih]
    rw [supplyAfter]
    split
    · rw [hone, hcons]
    · exact hcons

/-- No operator clashes with a closing parenthesis. -/
private theorem not_clash_closing {c : Char} (hc : isOperatorChar c) : ¬ Clash c ')' := by
  intro hclash
  cases hclash with
  | leadingOperator hd => cases hd
  | operators _ hd => cases hd
  | numberAfterClosing hd => cases hd
  | emptyParens => cases hc

/-- What does not clash with the operands does not clash without them. -/
private theorem isChain_of_supplyAfter {c : Char} (hc : prev.any isOperatorChar → prev = some c)
    (h : (c :: supplyAfter prev cs).IsChain fun c d ↦ ¬ Clash c d) :
    (c :: cs).IsChain fun c d ↦ ¬ Clash c d := by
  induction cs generalizing prev c with
  | nil => exact List.isChain_singleton c
  | cons d cs ih =>
    rw [supplyAfter] at h
    rw [List.isChain_cons_cons]
    split at h
    · next hsupplied =>
      rw [Bool.and_eq_true, beq_iff_eq] at hsupplied
      obtain ⟨rfl, hoperator⟩ := hsupplied
      obtain rfl := hc hoperator
      exact ⟨not_clash_closing hoperator, ih _ (fun _ ↦ rfl) (List.isChain_cons_cons.mp h.tail).2⟩
    · rw [List.isChain_cons_cons] at h
      exact ⟨h.1, ih _ (fun _ ↦ rfl) h.2⟩

end

/-! ### Sound expressions are sentences -/

/-- Where a part of an expression is taken from, what is left is balanced from the depth that the
part leads to. -/
private theorem balancedFrom_of_append {depth depth' : Nat} {v rest : List Char}
    (h : balancedFrom depth (v ++ rest))
    (hdepth : depth + v.count '(' = depth' + v.count ')') : balancedFrom depth' rest := by
  induction v generalizing depth with
  | nil =>
    obtain rfl : depth = depth' := hdepth
    exact h
  | cons c v ih =>
    rw [List.cons_append, balancedFrom] at h
    by_cases hopening : c = '('
    · subst hopening
      rw [List.count_cons_self, List.count_cons_of_ne (by decide)] at hdepth
      exact ih h (by omega)
    · rw [if_neg (by simpa using hopening)] at h
      by_cases hclosing : c = ')'
      · subst hclosing
        rw [if_pos (by decide), Bool.and_eq_true, bne_iff_ne] at h
        rw [List.count_cons_self, List.count_cons_of_ne (by decide)] at hdepth
        exact ih h.2 (by omega)
      · rw [if_neg (by simpa using hclosing)] at h
        rw [List.count_cons_of_ne hopening, List.count_cons_of_ne hclosing] at hdepth
        exact ih h hdepth

/-- A solid character asks for an operand after it or ends a value. -/
theorem isSolid_cases {c : Char} (h : isSolid c) :
    (isOperatorChar c ∨ c = '(') ∨ endsValue c := by
  rw [isSolid, isKnown, Bool.and_eq_true] at h
  obtain ⟨hknown, hblank⟩ := h
  simp only [Bool.or_eq_true, beq_iff_eq] at hknown
  rcases hknown with ((((hliteral | hoperator) | rfl) | rfl) | rfl) | hblank'
  · exact .inr (by rw [endsValue, hliteral]; rfl)
  · exact .inl (.inl hoperator)
  · exact .inr rfl
  · exact .inl (.inr rfl)
  · exact .inr rfl
  · rw [hblank'] at hblank
    cases hblank

section

variable {before run rest : List Char} {c : Char} {q : Shape}

/-- What is due after a part of an expression can be seen from its last character. -/
theorem due_of_leads (h : Leads before q) (hlast : isSolid (before.getLast?.getD '(')) :
    ((isOperatorChar (before.getLast?.getD '(') ∨ before.getLast?.getD '(' = '(') ∧
        ∃ n, q = .operand n) ∨
      (endsValue (before.getLast?.getD '(') ∧ ∃ n, q = .operator n) := by
  have hblank : ∀ d ∈ before.getLast?, isBlank d = false := by
    intro d hd
    rw [Option.mem_def.mp hd, Option.getD_some, isSolid, Bool.and_eq_true] at hlast
    simpa using hlast.2
  rcases isSolid_cases hlast with hoperand | hvalue
  · refine .inl ⟨hoperand, h.operand_of_isOperatorChar ?_⟩
    rw [all_solid?_reverse hblank rfl]
    simpa using hoperand
  · refine .inr ⟨hvalue, h.operator_of_endsValue ?_⟩
    rcases List.eq_nil_or_concat before with rfl | ⟨b, d, rfl⟩
    · cases hvalue
    · rw [List.concat_eq_append] at hblank hvalue ⊢
      rw [List.getLast?_concat, Option.getD_some] at hvalue
      rw [Display.solid?_reverse (hblank d List.getLast?_concat) (by simp), Option.any_some, hvalue]

/-- An operator that does not clash with what stands before it goes on. -/
private theorem exists_leads_operator (h : Leads before q)
    (hlast : isSolid (before.getLast?.getD '('))
    (hc : isOperatorChar c) (hclash : ¬ Clash (before.getLast?.getD '(') c) :
    ∃ q', Leads (before ++ [c]) q' := by
  have hfactor {d : Char} {op : Expression.MulOp} (hfactor : isFactorOperator c)
      (hminus : c ≠ '-') (hplain : plainAfter before.getLast? [c] = [d])
      (hd : Expression.symbol? d = some (.mul op)) : ∃ q', Leads (before ++ [c]) q' := by
    rcases due_of_leads h hlast with ⟨hoperator | hopening, -⟩ | ⟨-, n, rfl⟩
    · exact absurd (.operators hoperator hc hminus) hclash
    · rw [hopening] at hclash
      exact absurd (.leadingOperator hfactor) hclash
    · exact ⟨_, h.symbol hplain hd rfl⟩
  have hcases := hc
  simp only [isOperatorChar, Bool.or_eq_true, beq_iff_eq] at hcases
  rcases hcases with ((((rfl | rfl) | rfl) | rfl) | rfl) | rfl
  · cases hfresh : isFresh before.getLast? with
    | true => exact ⟨q, h.leadingPlus hfresh⟩
    | false =>
      rcases due_of_leads h hlast with ⟨hoperator | hopening, -⟩ | ⟨-, n, rfl⟩
      · exact absurd (.operators hoperator hc (by decide)) hclash
      · cases hbefore : before.getLast? with
        | none =>
          rw [hbefore] at hfresh
          cases hfresh
        | some d =>
          rw [hbefore, Option.getD_some] at hopening
          rw [hbefore, hopening] at hfresh
          cases hfresh
      · exact ⟨_, h.symbol (Display.plainAfter_plus hfresh []) rfl rfl⟩
  · rcases due_of_leads h hlast with ⟨-, n, rfl⟩ | ⟨-, n, rfl⟩
    · exact ⟨_, h.symbol (d := '-') rfl rfl rfl⟩
    · exact ⟨_, h.symbol (d := '-') rfl rfl rfl⟩
  · exact hfactor (d := '*') rfl (by decide) rfl rfl
  · exact hfactor (d := '/') rfl (by decide) rfl rfl
  · exact hfactor (d := '*') rfl (by decide) rfl rfl
  · exact hfactor (d := '/') rfl (by decide) rfl rfl

/-- A closing parenthesis that has its partner goes on, with an operand if an operator stands right
before it. -/
private theorem exists_leads_closing (h : Leads before q)
    (hlast : isSolid (before.getLast?.getD '('))
    (hclash : ¬ Clash (before.getLast?.getD '(') ')') (hdepth : 0 < q.depth) :
    ∃ q', Leads (before ++ supplyAfter before.getLast? [')']) q' := by
  have hclose {b : List Char} {n : Nat} (hb : Leads b (.operator n)) (hn : 0 < n) :
      ∃ q', Leads (b ++ [')']) q' := by
    obtain ⟨n, rfl⟩ := Nat.exists_eq_succ_of_ne_zero (Nat.ne_of_gt hn)
    exact ⟨_, hb.symbol (d := ')') rfl rfl rfl⟩
  rw [supplyAfter]
  rcases due_of_leads h hlast with ⟨hoperator | hopening, n, rfl⟩ | ⟨hvalue, n, rfl⟩
  · cases hbefore : before.getLast? with
    | none =>
      rw [hbefore] at hoperator
      cases hoperator
    | some d =>
      rw [hbefore, Option.getD_some] at hoperator
      have hone : Leads (before ++ ['1']) (.operator n) :=
        h.number (by simp [isLiteralChar]) ⟨'1', by simp, rfl⟩ (by decide)
      obtain ⟨q', hq'⟩ := hclose hone hdepth
      refine ⟨q', ?_⟩
      rw [Option.any_some, hoperator]
      simpa [supplyAfter] using hq'
  · rw [hopening] at hclash
    exact absurd .emptyParens hclash
  · have hoperator : before.getLast?.any isOperatorChar = false := by
      cases hbefore : before.getLast? with
      | none => rfl
      | some d =>
        rw [hbefore, Option.getD_some] at hvalue
        rw [Option.any_some, ← Bool.not_eq_true]
        intro hoperator
        simp only [isOperatorChar, Bool.or_eq_true, beq_iff_eq] at hoperator
        rcases hoperator with ((((rfl | rfl) | rfl) | rfl) | rfl) | rfl <;> cases hvalue
    obtain ⟨q', hq'⟩ := hclose h hdepth
    refine ⟨q', ?_⟩
    rw [hoperator]
    simpa [supplyAfter] using hq'

/-- A character of no number that does not clash with what stands before it goes on. -/
private theorem exists_leads_mark (h : Leads before q) (hlast : isSolid (before.getLast?.getD '('))
    (hc : isSolid c) (hmark : isLiteralChar c = false)
    (hclash : ¬ Clash (before.getLast?.getD '(') c) (hdepth : c = ')' → 0 < q.depth) :
    ∃ q', Leads (before ++ supplyAfter before.getLast? [c]) q' := by
  have hkept (hc : c ≠ ')') : supplyAfter before.getLast? [c] = [c] :=
    supplyAfter_eq_self _ _ (by simpa using Ne.symm hc)
  rcases isSolid_cases hc with (hoperator | rfl) | hvalue
  · rw [hkept (by rintro rfl; cases hoperator)]
    exact exists_leads_operator h hlast hoperator hclash
  · rw [hkept (by decide)]
    rcases due_of_leads h hlast with ⟨-, n, rfl⟩ | ⟨hvalue, -⟩
    · exact ⟨_, h.symbol (d := '(') rfl rfl rfl⟩
    · exact absurd (.openingAfterValue hvalue) hclash
  · rw [endsValue, hmark, Bool.false_or, Bool.or_eq_true, beq_iff_eq, beq_iff_eq] at hvalue
    rcases hvalue with rfl | rfl
    · exact exists_leads_closing h hlast hclash (hdepth rfl)
    · rw [hkept (by decide)]
      rcases due_of_leads h hlast with ⟨hoperand, -⟩ | ⟨-, n, rfl⟩
      · exact absurd (.misplacedPercent hoperand) hclash
      · have hpercent : Leads (before ++ ['%']) (.operator n) := h.percent (by simp) (by decide)
        exact ⟨_, hpercent⟩

/-- A number that does not clash with what stands before it goes on. After a percent sign it belongs
to the number `100`. -/
private theorem exists_leads_run (h : Leads before q) (hlast : isSolid (before.getLast?.getD '('))
    (hne : run ≠ []) (hrun : ∀ c ∈ run, isLiteralChar c) (hnumeral : isNumeral run)
    (hends : isLiteralChar (before.getLast?.getD '(') = false)
    (hclash : ∀ c ∈ run.head?, ¬ Clash (before.getLast?.getD '(') c) :
    ∃ q', Leads (before ++ run) q' := by
  simp only [isNumeral, Bool.and_eq_true, List.any_eq_true, decide_eq_true_eq] at hnumeral
  rcases due_of_leads h hlast with ⟨-, n, rfl⟩ | ⟨hvalue, -⟩
  · exact ⟨_, h.number hrun hnumeral.1 hnumeral.2⟩
  · rw [endsValue, hends, Bool.false_or, Bool.or_eq_true, beq_iff_eq, beq_iff_eq] at hvalue
    rcases hvalue with hclosing | hpercent
    · obtain ⟨c, run, rfl⟩ := List.exists_cons_of_ne_nil hne
      have hfirst := hclash c rfl
      rw [hclosing] at hfirst
      exact absurd (.numberAfterClosing (hrun c (by simp))) hfirst
    · cases hbefore : before.getLast? with
      | none =>
        rw [hbefore] at hpercent
        cases hpercent
      | some d =>
        rw [hbefore, Option.getD_some] at hpercent
        subst hpercent
        obtain ⟨b, rfl⟩ := List.getLast?_eq_some_iff.mp hbefore
        have hwhole : Leads (b ++ '%' :: []) q := h
        obtain ⟨p, p', -, hb, hstep, -⟩ := hwhole.exists_step (d := '/') rfl rfl
        cases p with
        | operand n => cases hstep
        | operator n =>
          rw [List.append_assoc]
          exact ⟨_, hb.percent hrun hnumeral.2⟩

/-- A part that goes on leaves the rest balanced from the depth that it leads to. -/
theorem balancedFrom_of_leads_append {prev : Option Char} {v : List Char} {p : Shape}
    (h : Leads before q) (hv : Leads (before ++ supplyAfter prev v) p)
    (hbalanced : balancedFrom q.depth (v ++ rest)) : balancedFrom p.depth rest := by
  refine balancedFrom_of_append hbalanced ?_
  have hbefore := h.count_opening
  have hafter := hv.count_opening
  rw [List.count_append, List.count_append, count_supplyAfter _ _ (by decide),
    count_supplyAfter _ _ (by decide)] at hafter
  omega

/-- The rest of an expression stands after the last character of the part before it. -/
theorem append_supplyAfter_append (before rest : List Char) {v : List Char} {d : Char}
    (hd : v.getLast? = some d) :
    (before ++ supplyAfter before.getLast? v).getLast? = some d ∧
      before ++ supplyAfter before.getLast? (v ++ rest) =
        (before ++ supplyAfter before.getLast? v) ++ supplyAfter (some d) rest := by
  constructor
  · rw [List.getLast?_append, getLast?_supplyAfter, hd, Option.some_or]
  · rw [supplyAfter_append, hd, Option.some_or, List.append_assoc]

/-- What is left of an expression without problems goes on after a part of it, with the operands
supplied, and closes what is open. -/
private theorem exists_leads_supply (h : Leads before q)
    (hlast : isSolid (before.getLast?.getD '(')) (hsolid : ∀ c ∈ rest, isSolid c)
    (hchain : (before.getLast?.getD '(' :: rest).IsChain fun c d ↦ ¬ Clash c d)
    (hends : isLiteralChar (before.getLast?.getD '(') → EndsRun rest)
    (hnumerals : ∀ run ∈ literals rest, isNumeral run) (hbalanced : balancedFrom q.depth rest) :
    ∃ q', Leads (before ++ supplyAfter before.getLast? rest) q' ∧ q'.depth = 0 := by
  induction rest using Expression.splitRec generalizing before q with
  | nil =>
    rw [supplyAfter, List.append_nil]
    exact ⟨q, h, by simpa [balancedFrom] using hbalanced⟩
  | mark c rest hmark ih =>
    obtain ⟨hc, hrest⟩ := List.forall_mem_cons.mp hsolid
    obtain ⟨hclash, hchain'⟩ := List.isChain_cons_cons.mp hchain
    rw [Expression.literals_cons_mark hmark] at hnumerals
    have hdepth : c = ')' → 0 < q.depth := by
      rintro rfl
      rw [balancedFrom, if_neg (by decide), if_pos (by decide), Bool.and_eq_true, bne_iff_ne]
        at hbalanced
      exact Nat.pos_of_ne_zero hbalanced.1
    obtain ⟨p, hp⟩ := exists_leads_mark h hlast hc hmark hclash hdepth
    obtain ⟨hlast', happend⟩ := append_supplyAfter_append before rest (v := [c]) (d := c) rfl
    have hgoes := ih hp (by rwa [hlast', Option.getD_some]) hrest
      (by rwa [hlast', Option.getD_some])
      (fun hliteral ↦ by rw [hlast', Option.getD_some, hmark] at hliteral; cases hliteral) hnumerals
      (balancedFrom_of_leads_append (v := [c]) h hp hbalanced)
    rw [hlast', ← happend] at hgoes
    exact hgoes
  | literal run rest hne hrun hrest ih =>
    have hkept : supplyAfter before.getLast? run = run := by
      refine supplyAfter_eq_self _ _ fun hmem ↦ ?_
      cases hrun ')' hmem
    have hparts := List.forall_mem_append.mp hsolid
    rw [Expression.literals_run_append hne hrun hrest, List.forall_mem_cons] at hnumerals
    obtain ⟨c, more, heq⟩ := List.exists_cons_of_ne_nil hne
    have hfirst : isLiteralChar (before.getLast?.getD '(') = false := by
      rw [← Bool.not_eq_true]
      intro hliteral
      have hc : isLiteralChar c = false := hends hliteral c (by rw [heq]; rfl)
      rw [hrun c (by simp [heq])] at hc
      cases hc
    have hclash : ∀ d ∈ run.head?, ¬ Clash (before.getLast?.getD '(') d := by
      intro d hd
      rw [heq] at hd hchain
      cases hd
      exact (List.isChain_cons_cons.mp hchain).1
    obtain ⟨p, hp⟩ := exists_leads_run h hlast hne hrun hnumerals.1 hfirst hclash
    rw [← hkept] at hp
    have hd : run.getLast? = some (run.getLast hne) := List.getLast?_eq_some_getLast hne
    obtain ⟨hlast', happend⟩ := append_supplyAfter_append before rest hd
    have hgoes := ih hp (by rw [hlast', Option.getD_some]; exact hparts.1 _ (List.getLast_mem hne))
      hparts.2
      (by
        rw [hlast', Option.getD_some]
        have hlater := hchain.tail
        rw [← List.dropLast_concat_getLast hne, List.append_assoc] at hlater
        exact List.IsChain.right_of_append hlater)
      (fun _ ↦ hrest) hnumerals.2 (balancedFrom_of_leads_append h hp hbalanced)
    rw [hlast', ← happend] at hgoes
    exact hgoes

end

/-- An expression without problems is a sentence once the operands are supplied. -/
theorem Sound.leads {cs : List Char} (h : Sound cs) (hne : cs ≠ []) (hsolid : ∀ c ∈ cs, isSolid c) :
    Leads (supplyOperands cs) (.operator 0) := by
  have hnil : Leads [] (.operand 0) := ⟨[], .nil, rfl⟩
  obtain ⟨q, hq, hdepth⟩ := exists_leads_supply hnil (by decide) hsolid h.neighbours
    (fun hliteral ↦ by cases hliteral) h.numerals h.balanced
  have hleads : Leads (supplyOperands cs) q := hq
  obtain ⟨cs, c, rfl⟩ := (List.eq_nil_or_concat cs).resolve_left hne
  rw [List.concat_eq_append] at *
  have hlast : (supplyOperands (cs ++ [c])).getLast? = some c := by
    rw [supplyOperands, getLast?_supplyAfter, List.getLast?_concat]
  have hc := hsolid c (by simp)
  rcases due_of_leads hleads (by rwa [hlast]) with ⟨hoperand, -⟩ | ⟨-, n, rfl⟩
  · rw [hlast, Option.getD_some] at hoperand
    rcases hoperand with hoperator | rfl
    · have hcomplete := h.complete
      rw [List.getLast?_concat, Option.any_some, hoperator] at hcomplete
      cases hcomplete
    · -- An opening parenthesis at the end is open.
      obtain ⟨b, hb⟩ := List.getLast?_eq_some_iff.mp hlast
      rw [hb] at hleads
      obtain ⟨p, -, hstep⟩ := hleads.exists_last_step (d := '(') rfl rfl
      cases p with
      | operand n =>
        cases hstep
        cases hdepth
      | operator n => cases n <;> cases hstep
  · obtain rfl : n = 0 := hdepth
    exact hleads

/-- What is a sentence once the operands are supplied has no problems, if its numbers are written
correctly. -/
theorem Sound.of_leads {cs : List Char} (hsolid : ∀ c ∈ cs, isSolid c)
    (hnumerals : ∀ run ∈ literals cs, isNumeral run)
    (h : Leads (supplyOperands cs) (.operator 0)) : Sound cs := by
  have hblank : ∀ c ∈ supplyOperands cs, isBlank c = false := by
    intro c hc
    rcases mem_supplyAfter none cs hc with rfl | hc
    · rfl
    · simpa using (Bool.and_eq_true_iff.mp (hsolid c hc)).2
  have hbalanced := balancedFrom_of_leads h
  have hhead : (supplyOperands cs).head? ≠ some ')' := by
    intro hhead
    obtain ⟨ds, hds⟩ := List.head?_eq_some_iff.mp hhead
    rw [hds] at hbalanced
    cases hbalanced
  have hchain : ('(' :: supplyOperands cs).IsChain fun c d ↦ ¬ Clash c d := by
    refine isChain_cons_iff.mpr fun before d after heq ↦ ?_
    refine not_clash_of_find hblank hhead ?_ ?_ ?_ ?_ heq
    · exact Problem.find_misplacedPercent h
    · exact Problem.find_eq_none fun b c a heq ↦ Problem.widthAt_strayOperator (heq ▸ h)
    · exact Problem.find_eq_none fun b c a heq ↦ Problem.widthAt_missingOperator (heq ▸ h)
    · exact Problem.find_eq_none fun b c a heq ↦ Problem.widthAt_emptyParens (heq ▸ h)
  refine ⟨isChain_of_supplyAfter none cs (fun hnone ↦ by cases hnone) hchain, hnumerals, ?_, ?_⟩
  · rwa [supplyOperands, balancedFrom_supplyAfter] at hbalanced
  · have hcomplete := (find_trailingOperator_iff hblank).mp
      (Problem.find_eq_none fun b c a heq ↦ Problem.widthAt_trailingOperator (heq ▸ h))
    rwa [supplyOperands, getLast?_supplyAfter] at hcomplete

end DeskCalculator.Diagnosis
