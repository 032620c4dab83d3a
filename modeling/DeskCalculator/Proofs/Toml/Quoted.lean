import DeskCalculator.Toml.Quoted
import Mathlib.Data.List.Basic
import Mathlib.Tactic.IntervalCases

/-!
# Quoted strings are read back

Whatever form is chosen for a text, the reader gets the text back, up to the closing quotes. In the
forms with three quotes up to two quotes of the text may stand in a row, also right before the
closing ones: so the induction goes over the text with the quotes in a row that were already passed.
-/

namespace DeskCalculator.Toml

/-! ### Characters between double quotes -/

/-- The digits of an escape name the character. -/
private theorem hexChar?_fourHexDigits :
    ∀ n < 128, hexChar? (fourHexDigits n) = some (Char.ofNat n) := by
  decide

private theorem lt_of_isControl {c : Char} (h : isControl c) : c.toNat < 128 := by
  rw [isControl, Bool.or_eq_true, Bool.and_eq_true, decide_eq_true_eq, beq_iff_eq] at h
  omega

section

variable {multi : Bool} {c e : Char} {cs : List Char}

/-- A character that is neither a quote nor a backslash is read as it is. -/
private theorem readBasic_cons (hquote : c ≠ '"') (hbackslash : c ≠ '\\')
    (h : isControl c = false) :
    readBasic multi .no (c :: cs) = consRead c (readBasic multi .no cs) := by
  have hnewline : c ≠ '\n' := by
    rintro rfl
    cases h
  have hreturn : c ≠ '\r' := by
    rintro rfl
    cases h
  rw [readBasic.eq_def]
  simp [hquote, hbackslash, hnewline, hreturn, h]

/-- Between three quotes a line end is read as it is. -/
private theorem readBasic_newline :
    readBasic true .no ('\n' :: cs) = consRead '\n' (readBasic true .no cs) := by
  rw [readBasic.eq_def]
  simp

/-- An escape of one letter is read as its character. -/
theorem readBasic_escape (h : escaped? e = some c) :
    readBasic multi .no ('\\' :: e :: cs) = consRead c (readBasic multi .no cs) := by
  have hne {d : Char} (hd : escaped? d = none) : e ≠ d := by
    rintro rfl
    rw [h] at hd
    cases hd
  have hblank : isBlank e = false := by
    rw [isBlank, Bool.or_eq_false_iff, beq_eq_false_iff_ne, beq_eq_false_iff_ne]
    exact ⟨hne rfl, hne rfl⟩
  rw [readBasic.eq_def]
  simp [hne (d := 'u') rfl, hne (d := 'U') rfl, hne (d := '\n') rfl, hne (d := '\r') rfl, hblank, h]

/-- An escape of four digits is read as the character that they name. -/
private theorem readBasic_hex {digits : List Char} (hlength : digits.length = 4)
    (h : hexChar? digits = some c) :
    readBasic multi .no ('\\' :: 'u' :: (digits ++ cs)) = consRead c (readBasic multi .no cs) := by
  obtain ⟨d₁, d₂, d₃, d₄, rfl⟩ := List.length_eq_four.mp hlength
  rw [readBasic.eq_def]
  simp [h]

/-- A character other than a quote is read back from what stands for it. -/
theorem readBasic_escapeChar (hquote : c ≠ '"') :
    readBasic multi .no (escapeChar multi c ++ cs) = consRead c (readBasic multi .no cs) := by
  unfold escapeChar
  split
  · next hc =>
    rw [hc]
    exact readBasic_escape rfl
  split
  · next hc =>
    rw [hc]
    exact readBasic_escape rfl
  split
  · next hc =>
    rw [hc]
    split
    · next hmulti =>
      rw [hmulti]
      exact readBasic_newline
    · exact readBasic_escape rfl
  split
  · next hc =>
    rw [hc]
    exact readBasic_escape rfl
  split
  · next hc =>
    rw [hc]
    exact readBasic_escape rfl
  split
  · next hc =>
    rw [hc]
    exact readBasic_escape rfl
  · next hbackslash =>
    split
    · next hcontrol =>
      have hhex := hexChar?_fourHexDigits c.toNat (lt_of_isControl hcontrol)
      rw [Char.ofNat_toNat] at hhex
      exact readBasic_hex rfl hhex
    · next hcontrol => exact readBasic_cons hquote hbackslash (Bool.eq_false_iff.mpr hcontrol)

/-- What stands for a character begins neither with a quote nor with the half of a line end, nor
with a line end unless the character is one. -/
theorem head?_escapeChar (hquote : c ≠ '"') :
    ∃ d, (escapeChar multi c).head? = some d ∧ d ≠ '"' ∧ d ≠ '\r' ∧ (d = '\n' → c = '\n') := by
  have hbackslash : '\\' ≠ '"' ∧ '\\' ≠ '\r' ∧ ('\\' = '\n' → c = '\n') :=
    ⟨by decide, by decide, fun h ↦ absurd h (by decide)⟩
  unfold escapeChar
  split
  · exact ⟨_, rfl, hbackslash⟩
  split
  · exact ⟨_, rfl, hbackslash⟩
  split
  · next hnewline =>
    split
    · exact ⟨_, rfl, by decide, by decide, fun _ ↦ hnewline⟩
    · exact ⟨_, rfl, hbackslash⟩
  split
  · exact ⟨_, rfl, hbackslash⟩
  split
  · exact ⟨_, rfl, hbackslash⟩
  · next hreturn =>
    split
    · exact ⟨_, rfl, hbackslash⟩
    split
    · exact ⟨_, rfl, hbackslash⟩
    · exact ⟨_, rfl, hquote, hreturn, id⟩

end

/-! ### One double quote on each side -/

section

variable {cs rest : List Char}

private theorem readBasic_close : readBasic false .no ('"' :: rest) = some ([], rest) := by
  rw [readBasic.eq_def]
  simp only [reduceCtorEq, false_and, Bool.false_eq_true, if_false, if_true]
  split
  · rfl
  · rfl

/-- A text with escapes is read up to the closing quote. -/
private theorem readBasic_escape_append (cs rest : List Char) :
    readBasic false .no (escape false 0 cs ++ '"' :: rest) = some (cs, rest) := by
  induction cs with
  | nil => exact readBasic_close
  | cons c cs ih =>
    rw [escape]
    split
    · next hquote =>
      rw [if_neg (by decide), hquote, List.cons_append, List.cons_append, readBasic_escape rfl, ih]
      rfl
    · next hquote =>
      rw [List.append_assoc, readBasic_escapeChar hquote, ih]
      rfl

/-! ### Three double quotes on each side -/

/-- Up to two quotes before the closing ones belong to the text. -/
theorem closeMulti_replicate {q d : Char} (hd : d ≠ q) {run : ℕ} (hrun : run ≤ 2) :
    closeMulti q (List.replicate run q ++ d :: rest) = (List.replicate run q, d :: rest) := by
  have hsingle : closeMulti q (d :: rest) = ([], d :: rest) := by
    cases rest with
    | nil => exact if_neg hd
    | cons e rest => exact if_neg hd
  interval_cases run
  · exact hsingle
  · simp [closeMulti, hd, List.replicate]
  · simp [closeMulti, List.replicate]

/-- Three more quotes can stand before the run as well as behind it. -/
theorem replicate_append_three (q : Char) (run : ℕ) (tail : List Char) :
    List.replicate run q ++ ([q, q, q] ++ tail) =
      q :: q :: q :: (List.replicate run q ++ tail) := by
  have hthree : [q, q, q] = List.replicate 3 q := rfl
  rw [hthree, ← List.append_assoc, ← List.replicate_add, Nat.add_comm, List.replicate_add,
    List.append_assoc]
  rfl

private theorem readBasic_closeMulti {d : Char} (hd : d ≠ '"') {run : ℕ} (hrun : run ≤ 2) :
    readBasic true .no (List.replicate run '"' ++ (['"', '"', '"'] ++ d :: rest)) =
      some (List.replicate run '"', d :: rest) := by
  rw [replicate_append_three, readBasic.eq_def]
  simp [closeMulti_replicate hd hrun]

/-- A quote that two more do not follow is read as it is. -/
theorem readBasic_quote (h : ∀ more, cs ≠ '"' :: '"' :: more) :
    readBasic true .no ('"' :: cs) = consRead '"' (readBasic true .no cs) := by
  rw [readBasic.eq_def]
  simp only [reduceCtorEq, false_and, if_false, if_true]

/-- At most one quote before another character is not followed by two. -/
private theorem replicate_append_ne {q : Char} {tail : List Char} (htail : tail.head? ≠ some q)
    {run : ℕ}
    (hrun : run ≤ 1) (more : List Char) : List.replicate run q ++ tail ≠ q :: q :: more := by
  rintro heq
  interval_cases run
  · exact htail (by rw [← List.nil_append tail, ← List.replicate_zero (a := q), heq]; rfl)
  · rw [List.replicate_one, List.singleton_append, List.cons.injEq] at heq
    exact htail (by rw [heq.2]; rfl)

/-- Up to two quotes in a row before another character are read as they are, if a quote is that two
more do not follow. -/
theorem read_replicate {q : Char} {read : List Char → Option (List Char × List Char)}
    (hread : ∀ text, (∀ more, text ≠ q :: q :: more) → read (q :: text) = consRead q (read text))
    {tail : List Char} (htail : tail.head? ≠ some q) {run : ℕ} (hrun : run ≤ 2) :
    read (List.replicate run q ++ tail) =
      (read tail).map fun x ↦ (List.replicate run q ++ x.1, x.2) := by
  induction run with
  | zero => exact Option.map_id'.symm
  | succ run ih =>
    rw [List.replicate_succ, List.cons_append,
      hread _ (replicate_append_ne htail (Nat.le_of_succ_le_succ hrun)),
      ih (Nat.le_of_succ_le hrun), consRead, Option.map_map]
    rfl

/-- A text with `run` quotes before it is read up to the three closing quotes. -/
private theorem readBasic_escape_multi {d : Char} (hd : d ≠ '"') {run : ℕ} (hrun : run ≤ 2)
    (cs rest : List Char) :
    readBasic true .no
        (List.replicate run '"' ++ (escape true run cs ++ (['"', '"', '"'] ++ d :: rest))) =
      some (List.replicate run '"' ++ cs, d :: rest) := by
  induction cs generalizing run with
  | nil =>
    rw [escape, List.nil_append, List.append_nil]
    exact readBasic_closeMulti hd hrun
  | cons c cs ih =>
    have hplain : readBasic true .no (escape true 0 cs ++ (['"', '"', '"'] ++ d :: rest)) =
        some (cs, d :: rest) := ih (Nat.zero_le 2)
    rw [escape, if_pos rfl]
    split
    · next hquote =>
      rw [hquote]
      split
      · next hroom =>
        have hnext := ih (Nat.succ_le_of_lt hroom)
        rw [List.replicate_succ', List.append_assoc, List.append_assoc] at hnext
        exact hnext
      · rw [List.cons_append, List.cons_append,
          read_replicate (fun _ ↦ readBasic_quote) (by simp) hrun, readBasic_escape rfl, hplain]
        rfl
    · next hquote =>
      obtain ⟨e, he, hne, -⟩ := @head?_escapeChar true c hquote
      have hhead :
          (escapeChar true c ++ (escape true 0 cs ++ (['"', '"', '"'] ++ d :: rest))).head? ≠
            some '"' := by
        rw [List.head?_append, he]
        simpa using hne
      rw [List.append_assoc, read_replicate (fun _ ↦ readBasic_quote) hhead hrun,
        readBasic_escapeChar hquote, hplain]
      rfl

end

/-! ### Single quotes -/

section

variable {c : Char} {cs rest : List Char}

/-- A character that is no quote is read as it is. -/
theorem readLiteral_cons {multi : Bool} (hquote : c ≠ '\'')
    (h : isControl c = false ∨ multi ∧ c = '\n') :
    readLiteral multi (c :: cs) = consRead c (readLiteral multi cs) := by
  rw [readLiteral.eq_def]
  rcases h with h | ⟨hmulti, rfl⟩
  · have hnewline : c ≠ '\n' := by
      rintro rfl
      cases h
    have hreturn : c ≠ '\r' := by
      rintro rfl
      cases h
    simp [hquote, hnewline, hreturn, h]
  · simp [hmulti]

/-- A text without quotes is read up to the closing one. -/
private theorem readLiteral_append (h : ∀ c ∈ cs, c ≠ '\'' ∧ isControl c = false)
    (rest : List Char) :
    readLiteral false (cs ++ '\'' :: rest) = some (cs, rest) := by
  induction cs with
  | nil =>
    rw [List.nil_append, readLiteral.eq_def]
    simp only [Bool.false_eq_true, if_false, if_true]
    split
    · rfl
    · rfl
  | cons c cs ih =>
    obtain ⟨hc, hcs⟩ := List.forall_mem_cons.mp h
    rw [List.cons_append, readLiteral_cons hc.1 (.inl hc.2), ih hcs]
    rfl

private theorem readLiteral_quote (h : ∀ more, cs ≠ '\'' :: '\'' :: more) :
    readLiteral true ('\'' :: cs) = consRead '\'' (readLiteral true cs) := by
  rw [readLiteral.eq_def]
  simp only [if_true]

/-- A text with short runs of quotes, `run` of them before it, is read up to the three closing
quotes. -/
private theorem readLiteral_append_multi {d : Char} (hd : d ≠ '\'') {run : ℕ}
    (hplain : ∀ c ∈ cs, isControl c = false ∨ c = '\n') (hrun : longestRun '\'' run cs ≤ 2)
    (rest : List Char) :
    readLiteral true
        (List.replicate run '\'' ++ (cs ++ (['\'', '\'', '\''] ++ d :: rest))) =
      some (List.replicate run '\'' ++ cs, d :: rest) := by
  induction cs generalizing run with
  | nil =>
    have hrun : run ≤ 2 := hrun
    rw [List.nil_append, List.append_nil, replicate_append_three, readLiteral.eq_def]
    simp [closeMulti_replicate hd hrun]
  | cons c cs ih =>
    obtain ⟨hc, hcs⟩ := List.forall_mem_cons.mp hplain
    rw [longestRun] at hrun
    split at hrun
    · next hquote =>
      have hnext := ih hcs hrun
      rw [List.replicate_succ', List.append_assoc, List.append_assoc] at hnext
      rw [hquote]
      exact hnext
    · next hquote =>
      have hnext := ih hcs (Nat.le_trans (Nat.le_max_right _ _) hrun)
      rw [List.cons_append, read_replicate (fun _ ↦ readLiteral_quote) (by simpa using hquote)
        (Nat.le_trans (Nat.le_max_left _ _) hrun),
        readLiteral_cons hquote (hc.imp_right fun hnewline ↦ ⟨rfl, hnewline⟩)]
      rw [List.replicate_zero, List.nil_append, List.nil_append] at hnext
      rw [hnext]
      rfl

end

/-! ### The four forms -/

/-- What the chosen form needs of a text. The forms with escapes need nothing. -/
structure Quoting.Suits (form : Quoting) (cs : List Char) : Prop where
  literal : form = .literal → cs ≠ [] ∧ ∀ c ∈ cs, c ≠ '\'' ∧ isControl c = false
  multiLiteral : form = .multiLiteral →
    longestRun '\'' 0 cs ≤ 2 ∧ ∀ c ∈ cs, isControl c = false ∨ c = '\n'

private theorem Quoting.suits_basic (cs : List Char) : Quoting.basic.Suits cs :=
  ⟨fun hform ↦ (nomatch hform), fun hform ↦ (nomatch hform)⟩

private theorem Quoting.suits_multiBasic (cs : List Char) : Quoting.multiBasic.Suits cs :=
  ⟨fun hform ↦ (nomatch hform), fun hform ↦ (nomatch hform)⟩

private theorem Quoting.suits_choose (cs : List Char) : (Quoting.choose cs).Suits cs := by
  have hplain (h : (!cs.any fun c ↦ isControl c && c != '\n') = true) :
      ∀ c ∈ cs, isControl c = false ∨ c = '\n' := by
    intro c hc
    rw [Bool.not_eq_true', List.any_eq_false] at h
    simpa [imp_iff_not_or] using h c hc
  unfold Quoting.choose
  dsimp only
  split
  · exact suits_basic cs
  · next hbasic =>
    split
    · next hliteral =>
      rw [Bool.and_eq_true, Bool.and_eq_true] at hliteral
      obtain ⟨⟨hcontrol, hquote⟩, hnewline⟩ := hliteral
      refine ⟨fun _ ↦ ⟨?_, fun c hc ↦ ⟨?_, (hplain hcontrol c hc).resolve_right ?_⟩⟩,
        fun hform ↦ (nomatch hform)⟩
      · rintro rfl
        exact hbasic rfl
      · rintro rfl
        simp [hc] at hquote
      · rintro rfl
        simp [hc] at hnewline
    split
    · exact suits_multiBasic cs
    split
    · next hmulti =>
      rw [Bool.and_eq_true, decide_eq_true_eq] at hmulti
      exact ⟨fun hform ↦ (nomatch hform), fun _ ↦ ⟨hmulti.2, hplain hmulti.1⟩⟩
    split
    · exact suits_multiBasic cs
    · exact suits_basic cs

section

variable (cs rest : List Char)

/-- What stands for a text begins with a quote only between three of them, never with the half of a
line end, and with a line end only if the text has one. -/
theorem head?_escape (multi : Bool) {cs : List Char} {d : Char}
    (h : (escape multi 0 cs).head? = some d) :
    (d = '"' → multi) ∧ d ≠ '\r' ∧ (d = '\n' → '\n' ∈ cs) := by
  cases cs with
  | nil => cases h
  | cons c cs =>
    rw [escape] at h
    split at h
    · split at h
      · next hroom =>
        cases h
        cases multi with
        | false => cases hroom
        | true => exact ⟨fun _ ↦ rfl, by decide, fun h ↦ absurd h (by decide)⟩
      · cases h
        exact ⟨fun h ↦ absurd h (by decide), by decide, fun h ↦ absurd h (by decide)⟩
    · next hquote =>
      obtain ⟨e, he, hne, hreturn, hnewline⟩ := @head?_escapeChar multi c hquote
      rw [List.head?_append, he] at h
      cases h
      refine ⟨fun heq ↦ absurd heq hne, hreturn, fun heq ↦ ?_⟩
      rw [hnewline heq]
      exact List.mem_cons_self

/-- The line end after the opening quotes is passed over, and no other. -/
theorem skipNewline_openingNewline {text : List Char}
    (h : ∀ d ∈ text.head?, d ≠ '\r' ∧ (d = '\n' → '\n' ∈ cs)) :
    skipNewline (openingNewline cs ++ text) = text := by
  rw [openingNewline]
  split
  · rfl
  · next hnone =>
    rw [List.nil_append]
    unfold skipNewline
    split
    · exact absurd (by simpa using (h '\n' rfl).2 rfl) hnone
    · exact absurd rfl (h '\r' rfl).1
    · rfl

/-- One quote opens a string on one line. -/
private theorem readString?_one {text : List Char} (h : ∀ more, text ≠ '"' :: '"' :: more) :
    readString? ('"' :: text) = readBasic false .no text := by
  unfold readString?
  split
  · next more heq =>
    cases heq
    exact absurd rfl (h more)
  · next heq =>
    cases heq
    rfl
  · next heq => cases heq
  · next heq => cases heq
  · next hbasic _ _ => exact absurd rfl (hbasic text)

private theorem readString?_basic :
    readString? (quoteAs cs .basic ++ '\n' :: rest) = some (cs, '\n' :: rest) := by
  have hsplit : quoteAs cs .basic ++ '\n' :: rest =
      '"' :: (escape false 0 cs ++ '"' :: '\n' :: rest) := by
    simp [quoteAs]
  have hquotes (more : List Char) :
      escape false 0 cs ++ '"' :: '\n' :: rest ≠ '"' :: '"' :: more := by
    intro heq
    cases hhead : (escape false 0 cs).head? with
    | none =>
      rw [List.head?_eq_none_iff.mp hhead] at heq
      cases heq
    | some d =>
      have hd : (escape false 0 cs ++ '"' :: '\n' :: rest).head? = some d := by
        rw [List.head?_append, hhead]
        rfl
      rw [heq] at hd
      cases hd
      cases (head?_escape false hhead).1 rfl
  rw [hsplit, readString?_one hquotes, readBasic_escape_append]

private theorem readString?_literal (hne : cs ≠ []) (h : ∀ c ∈ cs, c ≠ '\'' ∧ isControl c = false) :
    readString? (quoteAs cs .literal ++ '\n' :: rest) = some (cs, '\n' :: rest) := by
  have hsplit : quoteAs cs .literal ++ '\n' :: rest = '\'' :: (cs ++ '\'' :: '\n' :: rest) := by
    simp [quoteAs]
  obtain ⟨c, ds, rfl⟩ := List.exists_cons_of_ne_nil hne
  have hread : readString? ('\'' :: (c :: ds ++ '\'' :: '\n' :: rest)) =
      readLiteral false (c :: ds ++ '\'' :: '\n' :: rest) := by
    have hc := (h c List.mem_cons_self).1
    unfold readString?
    split
    · next heq => cases heq
    · next heq => cases heq
    · next heq =>
      rw [List.cons_append, List.cons.injEq, List.cons.injEq] at heq
      exact absurd heq.2.1 hc
    · next heq =>
      cases heq
      rfl
    · next hliteral => exact absurd rfl (hliteral _)
  rw [hsplit, hread, readLiteral_append h]

private theorem readString?_multiBasic :
    readString? (quoteAs cs .multiBasic ++ '\n' :: rest) = some (cs, '\n' :: rest) := by
  have hread : readString? (quoteAs cs .multiBasic ++ '\n' :: rest) =
      readBasic true .no (skipNewline (openingNewline cs ++
        (escape true 0 cs ++ (['"', '"', '"'] ++ '\n' :: rest)))) := by
    simp [quoteAs, readString?]
  have hhead : ∀ d ∈ (escape true 0 cs ++ (['"', '"', '"'] ++ '\n' :: rest)).head?,
      d ≠ '\r' ∧ (d = '\n' → '\n' ∈ cs) := by
    intro d hd
    rw [Option.mem_def, List.head?_append, Option.or_eq_some_iff] at hd
    rcases hd with hd | ⟨-, hd⟩
    · exact (head?_escape true hd).2
    · cases hd
      exact ⟨by decide, fun h ↦ absurd h (by decide)⟩
  rw [hread, skipNewline_openingNewline cs hhead]
  exact readBasic_escape_multi (by decide) (Nat.zero_le 2) cs rest

private theorem readString?_multiLiteral (hrun : longestRun '\'' 0 cs ≤ 2)
    (h : ∀ c ∈ cs, isControl c = false ∨ c = '\n') :
    readString? (quoteAs cs .multiLiteral ++ '\n' :: rest) = some (cs, '\n' :: rest) := by
  have hread : readString? (quoteAs cs .multiLiteral ++ '\n' :: rest) =
      readLiteral true (skipNewline (openingNewline cs ++
        (cs ++ (['\'', '\'', '\''] ++ '\n' :: rest)))) := by
    simp [quoteAs, readString?]
  have hhead : ∀ d ∈ (cs ++ (['\'', '\'', '\''] ++ '\n' :: rest)).head?,
      d ≠ '\r' ∧ (d = '\n' → '\n' ∈ cs) := by
    intro d hd
    rw [Option.mem_def, List.head?_append, Option.or_eq_some_iff] at hd
    rcases hd with hd | ⟨-, hd⟩
    · have hmem := List.mem_of_mem_head? hd
      refine ⟨?_, fun heq ↦ heq ▸ hmem⟩
      rintro rfl
      rcases h '\r' hmem with hcontrol | heq
      · cases hcontrol
      · cases heq
    · cases hd
      exact ⟨by decide, fun h ↦ absurd h (by decide)⟩
  rw [hread, skipNewline_openingNewline cs hhead]
  exact readLiteral_append_multi (by decide) h hrun rest

end

/-- A text that is quoted on a line is read back. -/
theorem readString?_quote (cs rest : List Char) :
    readString? (quote cs ++ '\n' :: rest) = some (cs, '\n' :: rest) := by
  rw [quote]
  have hsuits := Quoting.suits_choose cs
  cases hform : Quoting.choose cs with
  | basic => exact readString?_basic cs rest
  | literal =>
    obtain ⟨hne, hplain⟩ := hsuits.literal hform
    exact readString?_literal cs rest hne hplain
  | multiBasic => exact readString?_multiBasic cs rest
  | multiLiteral =>
    obtain ⟨hrun, hplain⟩ := hsuits.multiLiteral hform
    exact readString?_multiLiteral cs rest hrun hplain

end DeskCalculator.Toml
