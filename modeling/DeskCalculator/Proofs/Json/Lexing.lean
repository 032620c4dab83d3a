import DeskCalculator.Json.Read
import DeskCalculator.Json.Write
import DeskCalculator.Proofs.Json.Parts

/-!
# The tokens of a written value

The text of a value is read as the tokens that the value is made of: strings through their escapes,
numbers through their digits, and the blanks of the indentation as nothing. A number or a word ends
where the next character cannot go on with it, so the text may go on after the value with anything
else.
-/

namespace DeskCalculator.Json

/-- What stands before the rest of a text is read before it. -/
theorem lex_cons (s : LexState) (c : Char) (cs : List Char) :
    lex s (c :: cs) = (lexStep s c).bind fun r ↦ (lex r.2 cs).map (r.1 ++ ·) := by
  rw [lex]
  simp only [Option.bind_eq_bind, Option.pure_def, Option.map_eq_bind]
  rfl

/-- A character that completes no token only changes the state. -/
theorem lex_cons_of_lexStep {s t : LexState} {c : Char} (h : lexStep s c = some ([], t))
    (cs : List Char) : lex s (c :: cs) = lex t cs := by
  rw [lex_cons, h]
  simp

/-! ### Blanks and punctuation -/

/-- A blank between tokens is passed over. -/
private theorem lex_gap {c : Char} (hc : isGap c) (cs : List Char) :
    lex .between (c :: cs) = lex .between cs := by
  apply lex_cons_of_lexStep
  rw [lexStep, beginToken, if_pos hc]

/-- Blanks between tokens are passed over. -/
theorem lex_gaps {gaps : List Char} (h : ∀ c ∈ gaps, isGap c) (cs : List Char) :
    lex .between (gaps ++ cs) = lex .between cs := by
  induction gaps with
  | nil => rfl
  | cons c gaps ih =>
    obtain ⟨hc, hgaps⟩ := List.forall_mem_cons.mp h
    rw [List.cons_append, lex_gap hc, ih hgaps]

private theorem lexStep_punctuation {c : Char} {t : Token} (hc : punctuation? c = some t) :
    lexStep .between c = some ([t], .between) := by
  unfold punctuation? at hc
  split at hc
  all_goals first
    | cases hc; rfl
    | cases hc

/-- A mark is a token by itself. -/
theorem lex_punctuation {c : Char} {t : Token} (hc : punctuation? c = some t) (cs : List Char) :
    lex .between (c :: cs) = (lex .between cs).map (t :: ·) := by
  rw [lex_cons, lexStep_punctuation hc]
  rfl

/-! ### Strings -/

theorem hexValue?_digitChar {n : Nat} (h : n < 16) : hexValue? (Nat.digitChar n) = some n := by
  have hall : ∀ n < 16, hexValue? (Nat.digitChar n) = some n := by decide
  exact hall n h

/-- A control character is read from its number. -/
private theorem lex_code {c : Char} (hc : c.toNat < 0x20) (read : List StringPart)
    (cs : List Char) :
    lex (.escape read) ('u' :: '0' :: '0' :: hexDigit (c.toNat / 16) :: hexDigit c.toNat :: cs) =
      lex (.inString (.char c :: read)) cs := by
  have hhigh : hexValue? (hexDigit (c.toNat / 16)) = some (c.toNat / 16) := by
    rw [hexDigit, Nat.mod_eq_of_lt (by omega)]
    exact hexValue?_digitChar (by omega)
  have hlow : hexValue? (hexDigit c.toNat) = some (c.toNat % 16) :=
    hexValue?_digitChar (Nat.mod_lt _ (by decide))
  have hnumber : 16 * (c.toNat / 16) + c.toNat % 16 = c.toNat := Nat.div_add_mod _ _
  have hpart : StringPart.ofCode c.toNat = .char c := by
    rw [StringPart.ofCode, if_neg (by omega), Char.ofNat_toNat]
  rw [lex_cons_of_lexStep (t := .code read 4 0) rfl,
    lex_cons_of_lexStep (t := .code read 3 0) rfl,
    lex_cons_of_lexStep (t := .code read 2 0) rfl,
    lex_cons_of_lexStep (t := .code read 1 (c.toNat / 16)),
    lex_cons_of_lexStep (t := .inString (.char c :: read))]
  · simp [lexStep, hlow, hnumber, hpart]
  · simp [lexStep, hhigh]

/-- Every character of a string is read from what is written for it. -/
private theorem lex_escapeChar (c : Char) (read : List StringPart) (cs : List Char) :
    lex (.inString read) (escapeChar c ++ cs) = lex (.inString (.char c :: read)) cs := by
  unfold escapeChar
  have hescape (d : Char) (hd : d ≠ 'u') (he : escaped? d = some c) :
      lex (.inString read) (['\\', d] ++ cs) = lex (.inString (.char c :: read)) cs := by
    rw [List.cons_append, lex_cons_of_lexStep (t := .escape read) rfl, List.cons_append,
      lex_cons_of_lexStep, List.nil_append]
    rw [lexStep, if_neg hd, he, Option.map_some]
  split
  · next h => exact hescape '"' (by decide) (by rw [h]; rfl)
  split
  · next h => exact hescape '\\' (by decide) (by rw [h]; rfl)
  split
  · next h => exact hescape 'b' (by decide) (by rw [h]; rfl)
  split
  · next h => exact hescape 'f' (by decide) (by rw [h]; rfl)
  split
  · next h => exact hescape 'n' (by decide) (by rw [h]; rfl)
  split
  · next h => exact hescape 'r' (by decide) (by rw [h]; rfl)
  split
  · next h => exact hescape 't' (by decide) (by rw [h]; rfl)
  split
  · next h =>
    rw [List.cons_append, lex_cons_of_lexStep (t := .escape read) rfl]
    exact lex_code h read cs
  · next hquote hslash _ _ _ _ _ hcontrol =>
    apply lex_cons_of_lexStep
    rw [lexStep, if_neg hquote, if_neg hslash, if_neg hcontrol]

private theorem join?_map_char (cs : List Char) : StringPart.join? (cs.map .char) = some cs := by
  induction cs with
  | nil => rfl
  | cons c cs ih => rw [List.map_cons, StringPart.join?, ih]; rfl

/-- A string is read from its text. -/
theorem lex_stringText (s : String) (cs : List Char) :
    lex .between (stringText s ++ cs) = (lex .between cs).map (.string (some s) :: ·) := by
  have hchars (chars : List Char) (read : List StringPart) :
      lex (.inString read) (chars.flatMap escapeChar ++ '"' :: cs) =
        (lex .between cs).map (stringToken ((chars.map .char).reverse ++ read) :: ·) := by
    induction chars generalizing read with
    | nil => rw [List.flatMap_nil, List.nil_append, lex_cons]; rfl
    | cons c chars ih =>
      rw [List.flatMap_cons, List.append_assoc, lex_escapeChar, ih, List.map_cons,
        List.reverse_cons, List.append_assoc, List.singleton_append]
  have htoken : stringToken ((s.toList.map .char).reverse ++ []) = .string (some s) := by
    rw [stringToken, List.append_nil, List.reverse_reverse, join?_map_char, Option.map_some,
      String.ofList_toList]
  rw [stringText, List.cons_append, List.cons_append, List.append_assoc, List.singleton_append,
    lex_cons_of_lexStep (t := .inString []) rfl, hchars, htoken]

/-! ### Numbers and words -/

/-- A text that does not go on with a number or a word. -/
def EndsBare (cs : List Char) : Prop :=
  ∀ c ∈ cs.head?, isBareChar c = false

theorem EndsBare.cons {c : Char} (h : isBareChar c = false) (cs : List Char) :
    EndsBare (c :: cs) := by
  rintro d hd
  cases hd
  exact h

/-- No blank goes on with a number or a word. -/
theorem isBareChar_of_isGap {c : Char} (h : isGap c) : isBareChar c = false := by
  simp only [isGap, Bool.or_eq_true, beq_iff_eq] at h
  rcases h with ((rfl | rfl) | rfl) | rfl <;> decide

theorem EndsBare.gaps_append {gaps cs : List Char} (hgaps : ∀ c ∈ gaps, isGap c)
    (hcs : EndsBare cs) : EndsBare (gaps ++ cs) := by
  cases gaps with
  | nil => exact hcs
  | cons c gaps => exact .cons (isBareChar_of_isGap (hgaps c List.mem_cons_self)) _

/-- Nothing else begins like a number or a word. -/
private theorem beginToken_bare {c : Char} (h : isBareChar c) :
    beginToken c = some ([], .bare [c]) := by
  have hgap : ¬ isGap c := by
    intro hgap
    rw [isBareChar_of_isGap hgap] at h
    cases h
  have hquote : c ≠ '"' := by
    rintro rfl
    revert h
    decide
  rw [beginToken, if_neg hgap, if_neg hquote, if_pos h]

/-- A number or a word is read up to its end. -/
theorem lex_bare {run rest : List Char} (hrest : EndsBare rest) (hrun : ∀ c ∈ run, isBareChar c)
    (hne : run ≠ []) :
    lex .between (run ++ rest) =
      (bareValue? run).bind fun v ↦ (lex .between rest).map (.atom v :: ·) := by
  have hread (run read : List Char) (hrun : ∀ c ∈ run, isBareChar c) :
      lex (.bare read) (run ++ rest) =
        (bareValue? (read.reverse ++ run)).bind fun v ↦ (lex .between rest).map (.atom v :: ·) := by
    induction run generalizing read with
    | nil =>
      rw [List.nil_append, List.append_nil]
      cases rest with
      | nil => rw [lex, lex, Option.map_eq_bind]; rfl
      | cons c cs =>
        have hc : ¬ isBareChar c := by simpa using hrest c rfl
        have hstep : lexStep (.bare read) c = (bareValue? read.reverse).bind fun v ↦
            (beginToken c).map fun r ↦ (.atom v :: r.1, r.2) := by
          rw [lexStep, if_neg hc]
          cases bareValue? read.reverse with
          | none => rfl
          | some v => cases beginToken c <;> rfl
        rw [lex_cons, lex_cons, hstep, lexStep]
        cases bareValue? read.reverse with
        | none => rfl
        | some v =>
          cases beginToken c with
          | none => rfl
          | some r => simp [Function.comp_def]
    | cons c run ih =>
      obtain ⟨hc, hrun⟩ := List.forall_mem_cons.mp hrun
      rw [List.cons_append, lex_cons_of_lexStep (t := .bare (c :: read)), ih _ hrun,
        List.reverse_cons, List.append_assoc, List.singleton_append]
      rw [lexStep, if_pos hc]
  cases run with
  | nil => exact absurd rfl hne
  | cons c run =>
    obtain ⟨hc, hrun⟩ := List.forall_mem_cons.mp hrun
    rw [List.cons_append, lex_cons_of_lexStep (s := .between) (beginToken_bare hc)]
    exact hread run [c] hrun

/-- A text that is nothing but a number or a word stands for its value. -/
theorem read?_bare {run : List Char} (hrun : ∀ c ∈ run, isBareChar c) (hne : run ≠ []) :
    read? run = bareValue? run := by
  have htokens : tokens? run = (bareValue? run).map fun v ↦ [.atom v] := by
    rw [tokens?, ← List.append_nil run, lex_bare (by simp [EndsBare]) hrun hne, List.append_nil,
      Option.map_eq_bind]
    rfl
  rw [read?, htokens]
  cases bareValue? run with
  | none => rfl
  | some v => rfl

end DeskCalculator.Json
