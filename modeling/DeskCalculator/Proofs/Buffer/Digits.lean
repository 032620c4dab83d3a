import DeskCalculator.Proofs.Buffer.Succession

/-!
# Digits one by one

A key with several digits on it does what the keys of its digits do one after the other, unless the
run has a leading zero that the single keys drop. Both are said by what they put at the end of a
buffer: behind a number that digits lengthen, the run; anywhere else a new number, of which the
single keys type the significant digits only.
-/

namespace DeskCalculator.Buffer

/-- The buffer after the digits of a run have been typed one at a time. -/
def digitByDigit (b run : List Char) : List Char :=
  run.foldl (fun b d ↦ append b (.digits [d])) b

/-- Whether digits lengthen the number at the end of a buffer: there is one, and it is not a lone
zero. -/
def Lengthens (b : List Char) : Prop :=
  trailingNumber b ≠ [] ∧ trailingNumber b ≠ ['0']

instance (b : List Char) : Decidable (Lengthens b) :=
  inferInstanceAs (Decidable (_ ∧ _))

/-- A buffer as a new number finds it: without a lone zero at its end, and with a multiplication
sign after a closing parenthesis. -/
def beforeNumber (b : List Char) : List Char :=
  if trailingNumber b = ['0'] then b.dropLast
  else if endsIn b ')' then b ++ ['×']
  else b

/-- A run of digits without its leading zeros; a run of zeros is a single one. -/
def significant (run : List Char) : List Char :=
  if run.all (· == '0') then ['0'] else run.dropWhile (· == '0')

variable {b run : List Char} {d : Char}

/-! ### Significant digits -/

private theorem significant_zero_cons (run : List Char) :
    significant ('0' :: run) = significant run := by
  simp [significant]

private theorem significant_cons (hd : d ≠ '0') (run : List Char) :
    significant (d :: run) = d :: run := by
  simp [significant, hd]

/-- All digits of a run are significant if the first one is no zero. -/
private theorem significant_eq_self_iff (hall : ¬ run.all (· == '0')) :
    significant run = run ↔ run.head? ≠ some '0' := by
  cases run with
  | nil => simp at hall
  | cons d run =>
    by_cases hd : d = '0'
    · subst hd
      have hlength : (run.dropWhile (· == '0')).length ≤ run.length :=
        (List.dropWhile_sublist _).length_le
      rw [significant, if_neg hall, List.dropWhile_cons, if_pos (by decide)]
      simp only [List.head?_cons, ne_eq, not_true_eq_false, iff_false]
      intro heq
      rw [heq, List.length_cons] at hlength
      omega
    · simp [significant_cons hd, hd]

/-! ### A run on one key -/

/-- A number that digits lengthen is not a closing parenthesis. -/
private theorem Lengthens.endsIn_closing (h : Lengthens b) : ¬ endsIn b ')' := by
  rw [endsIn_iff (by decide)]
  intro hlast
  exact h.1 (trailingNumber_eq_nil_iff.mpr (by rw [hlast]; rfl))

/-- A run goes on with the number at the end of a buffer. -/
theorem Lengthens.append (h : Lengthens b) (run : List Char) :
    append b (.digits run) = b ++ run := by
  rw [Buffer.append]
  split
  · rw [appendZeros, if_neg h.2, if_neg h.1]
  · rw [appendDigits, if_neg h.2, if_neg h.endsIn_closing]

/-- A run that does not go on with a number begins one, with a single zero if it is all zeros. -/
theorem append_digits_of_not_lengthens (h : ¬ Lengthens b) (run : List Char) :
    append b (.digits run) =
      beforeNumber b ++ if run.all (· == '0') then ['0'] else run := by
  have hnumber : trailingNumber b = [] ∨ trailingNumber b = ['0'] := by
    rw [Lengthens, ← not_or, Classical.not_not] at h
    exact h
  rw [append, beforeNumber]
  rcases hnumber with hnone | hzero
  · have hne : ¬ trailingNumber b = ['0'] := by simp [hnone]
    rw [if_neg hne, appendZeros, if_neg hne, if_pos hnone, appendDigits, if_neg hne]
    split <;> split <;> simp
  · obtain ⟨a, rfl, -⟩ := exists_of_zero hzero
    rw [if_pos hzero, appendZeros, if_pos hzero, appendDigits, if_pos hzero, List.dropLast_concat]
    split <;> rfl

/-! ### Digits on keys of their own -/

/-- A new number stands after none. -/
theorem trailingNumber_beforeNumber (h : ¬ Lengthens b) : trailingNumber (beforeNumber b) = [] := by
  rw [beforeNumber]
  split
  · next hzero =>
    obtain ⟨a, rfl, ha⟩ := exists_of_zero hzero
    rw [List.dropLast_concat]
    exact trailingNumber_eq_nil_iff.mpr ha
  · next hne =>
    split
    · exact trailingNumber_concat b '×'
    · exact Classical.byContradiction fun hnumber ↦ h ⟨hnumber, hne⟩

/-- A lone zero gives way to a new number. -/
theorem beforeNumber_concat_zero (h : trailingNumber b = []) : beforeNumber (b ++ ['0']) = b := by
  have hzero : trailingNumber (b ++ ['0']) = ['0'] := by
    rw [trailingNumber_concat, if_pos (by decide), h, List.nil_append]
  rw [beforeNumber, if_pos hzero, List.dropLast_concat]

private theorem not_lengthens_concat_zero (h : trailingNumber b = []) :
    ¬ Lengthens (b ++ ['0']) := by
  rintro ⟨-, hne⟩
  rw [trailingNumber_concat, if_pos (by decide), h] at hne
  exact hne rfl

/-- A digit makes a number that digits lengthen if it is no zero or goes on with such a number. -/
theorem lengthens_concat (hd : d.isDigit) (h : d ≠ '0' ∨ Lengthens b) : Lengthens (b ++ [d]) := by
  rw [Lengthens, trailingNumber_concat, if_pos (isLiteralChar_of_isDigit hd)]
  refine ⟨by simp, fun hzero ↦ ?_⟩
  have heq : trailingNumber b ++ [d] = [] ++ ['0'] := hzero
  rcases h with hne | hlengthens
  · exact hne (List.cons.inj (List.append_inj' heq rfl).2).1
  · exact hlengthens.1 (List.append_inj' heq rfl).1

/-- Digits go on one by one with a number that they lengthen. -/
theorem Lengthens.digitByDigit (h : Lengthens b) (hrun : ∀ c ∈ run, c.isDigit) :
    digitByDigit b run = b ++ run := by
  induction run generalizing b with
  | nil => exact (List.append_nil b).symm
  | cons d run ih =>
    obtain ⟨hd, hrun⟩ := List.forall_mem_cons.mp hrun
    rw [Buffer.digitByDigit, List.foldl_cons, h.append, ← Buffer.digitByDigit,
      ih (lengthens_concat hd (.inr h)) hrun, List.append_assoc, List.singleton_append]

/-- Digits over a lone zero leave their significant ones. -/
private theorem digitByDigit_concat_zero (h : trailingNumber b = []) (hrun : ∀ c ∈ run, c.isDigit) :
    digitByDigit (b ++ ['0']) run = b ++ significant run := by
  induction run with
  | nil => rfl
  | cons d run ih =>
    obtain ⟨hd, hrest⟩ := List.forall_mem_cons.mp hrun
    rw [digitByDigit, List.foldl_cons, append_digits_of_not_lengthens (not_lengthens_concat_zero h),
      beforeNumber_concat_zero h, ← digitByDigit]
    by_cases hzero : d = '0'
    · subst hzero
      rw [significant_zero_cons, ← ih hrest]
      rfl
    · rw [if_neg (by simpa using hzero), significant_cons hzero,
        (lengthens_concat hd (.inl hzero)).digitByDigit hrest, List.append_assoc,
        List.singleton_append]

/-- Digits that do not go on with a number begin one with their significant digits. -/
private theorem digitByDigit_of_not_lengthens (h : ¬ Lengthens b) (hne : run ≠ [])
    (hrun : ∀ c ∈ run, c.isDigit) : digitByDigit b run = beforeNumber b ++ significant run := by
  -- The first digit types what it would type over a lone zero.
  rw [← digitByDigit_concat_zero (trailingNumber_beforeNumber h) hrun]
  cases run with
  | nil => exact absurd rfl hne
  | cons d run =>
    rw [digitByDigit, digitByDigit, List.foldl_cons, List.foldl_cons,
      append_digits_of_not_lengthens h,
      append_digits_of_not_lengthens (not_lengthens_concat_zero (trailingNumber_beforeNumber h)),
      beforeNumber_concat_zero (trailingNumber_beforeNumber h)]

/-! ### Both ways -/

/-- A run of digits on one key does to a buffer, reachable or not, what its digits do one at a time,
if it is all zeros or has no leading zero. Another run does so exactly behind a number that digits
lengthen: elsewhere its leading zeros stay, while those that are typed one by one go. -/
theorem append_digits_eq_digitByDigit_iff (b : List Char) {run : List Char} (hne : run ≠ [])
    (hrun : ∀ c ∈ run, c.isDigit) :
    append b (.digits run) = digitByDigit b run ↔
      (∀ c ∈ run, c = '0') ∨ run.head? ≠ some '0' ∨ Lengthens b := by
  have hall : run.all (· == '0') ↔ ∀ c ∈ run, c = '0' := by simp
  by_cases hb : Lengthens b
  · simp only [hb.append, hb.digitByDigit hrun, hb, or_true]
  · rw [append_digits_of_not_lengthens hb, digitByDigit_of_not_lengthens hb hne hrun,
      List.append_cancel_left_eq, ← hall]
    by_cases hzeros : run.all (· == '0')
    · simp [significant, hzeros]
    · rw [if_neg hzeros, eq_comm, significant_eq_self_iff hzeros]
      simp [hzeros, hb]

/-- Three zeros behind a closed group: one of them is typed, behind a product sign. -/
theorem append_digits_after_group :
    let run : List Char := ['0', '0', '0']
    run ≠ [] ∧ (∀ c ∈ run, c.isDigit) ∧ (∀ c ∈ run, c = '0') ∧
      append "5×(2)".toList (.digits run) = "5×(2)×0".toList ∧
      digitByDigit "5×(2)".toList run = "5×(2)×0".toList := by
  intro run
  have hrun : ∀ c ∈ run, c.isDigit := List.all_eq_true.mp rfl
  have hzeros : ∀ c ∈ run, c = '0' := by simp [run]
  have happend : append "5×(2)".toList (.digits run) = "5×(2)×0".toList := by decide
  have hboth := (append_digits_eq_digitByDigit_iff "5×(2)".toList (by simp [run]) hrun).mpr
    (.inl hzeros)
  exact ⟨by simp [run], hrun, hzeros, happend, hboth ▸ happend⟩

/-- A leading zero stays if it is on the key, and goes if it is typed before the next digit. -/
example : append "5+".toList (.digits ['0', '7']) = "5+07".toList ∧
    digitByDigit "5+".toList ['0', '7'] = "5+7".toList := by decide

end DeskCalculator.Buffer
