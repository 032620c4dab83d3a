import DeskCalculator.Proofs.Json.Lexing
import DeskCalculator.Proofs.Json.Numerals

/-!
# Splitting a written value

A value is written in one of two layouts, without blanks or indented. In both its text is split
into the tokens that it is made of, its `lexemes`, whatever level the value stands at and whatever
follows (`splitsAsWritten`).
-/

namespace DeskCalculator.Json

/-! ### Tokens of a value -/

mutual

/-- The tokens that a value is made of. -/
def lexemes : Json → List Token
  | string s => [.string (some s)]
  | array [] => [.openArray, .closeArray]
  | array (v :: vs) => .openArray :: lexemes v ++ elementLexemes vs
  | object [] => [.openObject, .closeObject]
  | object ((key, v) :: ms) =>
    .openObject :: .string (some key) :: .colon :: lexemes v ++ memberLexemes ms
  | v => [.atom v]

/-- The tokens of the rest of an array after an element. -/
def elementLexemes : List Json → List Token
  | [] => [.closeArray]
  | v :: vs => .comma :: lexemes v ++ elementLexemes vs

/-- The tokens of the rest of an object after a member. -/
def memberLexemes : List (String × Json) → List Token
  | [] => [.closeObject]
  | (key, v) :: ms => .comma :: .string (some key) :: .colon :: lexemes v ++ memberLexemes ms

end

/-- Whether a double is read back from its text. -/
def readsBack (x : Float) : Bool :=
  match read? (floatText x) with
  | some (float y) => y = x
  | _ => false

private theorem bareValue?_floatText {x : Float} (h : readsBack x) :
    bareValue? (floatText x) = some (float x) := by
  have hne : floatText x ≠ [] := by
    intro hnil
    have hnone : read? [] = none := rfl
    rw [readsBack, hnil, hnone] at h
    cases h
  rw [readsBack, read?_bare (isBareChar_of_mem_floatText x) hne] at h
  split at h
  · next heq => rw [heq, of_decide_eq_true h]
  · cases h

/-! ### Layouts -/

/-- A way to write values. Blanks may stand before each element and member, before the end of an
array or object, and after a colon. -/
structure Layout where
  text (level : Nat) (v : Json) : List Char
  /-- The rest of an array at a level after an element. -/
  elementsText (level : Nat) (elements : List Json) : List Char
  /-- The rest of an object at a level after a member. -/
  membersText (level : Nat) (members : List (String × Json)) : List Char
  /-- The blanks before what stands at a level. -/
  line (level : Nat) : List Char
  /-- The blanks after a colon. -/
  space : List Char
  isGap_of_mem_line : ∀ level, ∀ c ∈ line level, isGap c
  isGap_of_mem_space : ∀ c ∈ space, isGap c
  /-- Blanks are only between parts. -/
  text_eq_compact : ∀ level v, v.parts = [v] → text level v = compact v
  text_array : ∀ level v vs, text level (array (v :: vs)) =
    '[' :: (line (level + 1) ++ (text (level + 1) v ++ elementsText level vs))
  elementsText_nil : ∀ level, elementsText level [] = line level ++ [']']
  elementsText_cons : ∀ level v vs, elementsText level (v :: vs) =
    ',' :: (line (level + 1) ++ (text (level + 1) v ++ elementsText level vs))
  text_object : ∀ level key v ms, text level (object ((key, v) :: ms)) =
    '{' :: (line (level + 1) ++ (stringText key ++ ':' :: (space ++ (text (level + 1) v ++
      membersText level ms))))
  membersText_nil : ∀ level, membersText level [] = line level ++ ['}']
  membersText_cons : ∀ level key v ms, membersText level ((key, v) :: ms) =
    ',' :: (line (level + 1) ++ (stringText key ++ ':' :: (space ++ (text (level + 1) v ++
      membersText level ms))))

/-- The layout without blanks. -/
def Layout.dense : Layout where
  text _ := compact
  elementsText _ := compactElements
  membersText _ := compactMembers
  line _ := []
  space := []
  isGap_of_mem_line _ := List.forall_mem_nil _
  isGap_of_mem_space := List.forall_mem_nil _
  text_eq_compact _ _ _ := rfl
  text_array _ _ _ := by simp [compact]
  elementsText_nil _ := by simp [compactElements]
  elementsText_cons _ _ _ := by simp [compactElements]
  text_object _ _ _ _ := by simp [compact]
  membersText_nil _ := by simp [compactMembers]
  membersText_cons _ _ _ _ := by simp [compactMembers]

private theorem isGap_of_mem_newLine (level : Nat) : ∀ c ∈ newLine level, isGap c :=
  List.forall_mem_cons.mpr ⟨rfl, fun c hc ↦ by rw [List.eq_of_mem_replicate hc]; rfl⟩

private theorem parts_ne_nil (v : Json) : v.parts ≠ [] :=
  List.ne_nil_of_mem v.self_mem_parts

private theorem pretty_eq_compact (level : Nat) {v : Json} (h : v.parts = [v]) :
    pretty level v = compact v := by
  cases v with
  | bool b => cases b <;> rfl
  | array elements =>
    cases elements with
    | nil => rfl
    | cons v vs => exact absurd h (by simp [parts, elementsParts, parts_ne_nil])
  | object members =>
    cases members with
    | nil => rfl
    | cons m ms => exact absurd h (by simp [parts, membersParts, parts_ne_nil])
  | _ => rfl

/-- The layout with each element and member on a line of its own. -/
def Layout.indented : Layout where
  text := pretty
  elementsText := prettyElements
  membersText := prettyMembers
  line := newLine
  space := [' ']
  isGap_of_mem_line := isGap_of_mem_newLine
  isGap_of_mem_space := List.forall_mem_singleton.mpr rfl
  text_eq_compact level _ := pretty_eq_compact level
  text_array _ _ _ := by simp [pretty]
  elementsText_nil _ := by simp [prettyElements]
  elementsText_cons _ _ _ := by simp [prettyElements]
  text_object _ _ _ _ := by simp [pretty]
  membersText_nil _ := by simp [prettyMembers]
  membersText_cons _ _ _ _ := by simp [prettyMembers]

/-! ### Splitting -/

variable {l : Layout}

/-- Whether the text of a value at any level is split into its tokens and the rest that follows. -/
def SplitsAsWritten (l : Layout) (v : Json) : Prop :=
  ∀ level rest, EndsBare rest →
    lex .between (l.text level v ++ rest) = (lex .between rest).map (lexemes v ++ ·)

private theorem lex_line (l : Layout) (level : Nat) (cs : List Char) :
    lex .between (l.line level ++ cs) = lex .between cs :=
  lex_gaps (l.isGap_of_mem_line level) cs

private theorem EndsBare.elementsText (l : Layout) (level : Nat) (elements : List Json)
    (rest : List Char) : EndsBare (l.elementsText level elements ++ rest) := by
  cases elements with
  | nil =>
    rw [l.elementsText_nil, List.append_assoc]
    exact .gaps_append (l.isGap_of_mem_line level) (.cons rfl _)
  | cons v vs =>
    rw [l.elementsText_cons]
    exact .cons rfl _

private theorem EndsBare.membersText (l : Layout) (level : Nat) (members : List (String × Json))
    (rest : List Char) : EndsBare (l.membersText level members ++ rest) := by
  cases members with
  | nil =>
    rw [l.membersText_nil, List.append_assoc]
    exact .gaps_append (l.isGap_of_mem_line level) (.cons rfl _)
  | cons m ms =>
    rw [l.membersText_cons]
    exact .cons rfl _

private theorem lex_elementsText {elements : List Json} (h : ∀ v ∈ elements, SplitsAsWritten l v)
    (level : Nat) (rest : List Char) :
    lex .between (l.elementsText level elements ++ rest) =
      (lex .between rest).map (elementLexemes elements ++ ·) := by
  induction elements with
  | nil =>
    rw [l.elementsText_nil, List.append_assoc, lex_line, List.singleton_append,
      lex_punctuation (t := .closeArray) rfl]
    rfl
  | cons v vs ih =>
    obtain ⟨hv, hvs⟩ := List.forall_mem_cons.mp h
    have hrest := EndsBare.elementsText l level vs rest
    rw [l.elementsText_cons, List.cons_append, lex_punctuation (t := .comma) rfl,
      List.append_assoc, lex_line, List.append_assoc, hv _ _ hrest, ih hvs]
    simp [elementLexemes, Function.comp_def]

/-- The text of a member is split into its key, the colon and what its value is split into. -/
theorem lex_member {key : String} {v : Json} (hv : SplitsAsWritten l v) (level : Nat)
    {rest : List Char} (hrest : EndsBare rest) :
    lex .between (stringText key ++ ':' :: (l.space ++ (l.text level v ++ rest))) =
      (lex .between rest).map (.string (some key) :: .colon :: lexemes v ++ ·) := by
  rw [lex_stringText, lex_punctuation (t := .colon) rfl, lex_gaps l.isGap_of_mem_space,
    hv _ _ hrest]
  simp [Function.comp_def]

private theorem lex_membersText {members : List (String × Json)}
    (h : ∀ m ∈ members, SplitsAsWritten l m.2) (level : Nat) (rest : List Char) :
    lex .between (l.membersText level members ++ rest) =
      (lex .between rest).map (memberLexemes members ++ ·) := by
  induction members with
  | nil =>
    rw [l.membersText_nil, List.append_assoc, lex_line, List.singleton_append,
      lex_punctuation (t := .closeObject) rfl]
    rfl
  | cons m ms ih =>
    obtain ⟨key, v⟩ := m
    obtain ⟨hv, hms⟩ := List.forall_mem_cons.mp h
    have hrest := EndsBare.membersText l level ms rest
    simp only [l.membersText_cons, List.cons_append, List.append_assoc]
    rw [lex_punctuation (t := .comma) rfl, lex_line, lex_member hv _ hrest, ih hms]
    simp [memberLexemes, Function.comp_def]

/-- A word or a number is one token. -/
theorem splitsAsWritten_of_bare {v : Json} (hparts : v.parts = [v])
    (hbare : ∀ c ∈ compact v, isBareChar c) (hvalue : bareValue? (compact v) = some v)
    (htokens : lexemes v = [.atom v]) : SplitsAsWritten l v := by
  intro level rest hrest
  have hne : compact v ≠ [] := by
    intro hnil
    rw [hnil] at hvalue
    cases hvalue
  rw [l.text_eq_compact level v hparts, lex_bare hrest hbare hne, hvalue, htokens]
  rfl

private theorem splitsAsWritten_array {elements : List Json}
    (h : ∀ v ∈ elements, SplitsAsWritten l v) : SplitsAsWritten l (array elements) := by
  intro level rest _
  cases elements with
  | nil =>
    rw [l.text_eq_compact level _ rfl, compact, List.cons_append, List.singleton_append,
      lex_punctuation (t := .openArray) rfl, lex_punctuation (t := .closeArray) rfl,
      Option.map_map]
    rfl
  | cons v vs =>
    obtain ⟨hv, hvs⟩ := List.forall_mem_cons.mp h
    have hrest := EndsBare.elementsText l level vs rest
    rw [l.text_array, List.cons_append, lex_punctuation (t := .openArray) rfl, List.append_assoc,
      lex_line, List.append_assoc, hv _ _ hrest, lex_elementsText hvs]
    simp [lexemes, Function.comp_def]

private theorem splitsAsWritten_object {members : List (String × Json)}
    (h : ∀ m ∈ members, SplitsAsWritten l m.2) : SplitsAsWritten l (object members) := by
  intro level rest _
  cases members with
  | nil =>
    rw [l.text_eq_compact level _ rfl, compact, List.cons_append, List.singleton_append,
      lex_punctuation (t := .openObject) rfl, lex_punctuation (t := .closeObject) rfl,
      Option.map_map]
    rfl
  | cons m ms =>
    obtain ⟨key, v⟩ := m
    obtain ⟨hv, hms⟩ := List.forall_mem_cons.mp h
    have hrest := EndsBare.membersText l level ms rest
    simp only [l.text_object, List.cons_append, List.append_assoc]
    rw [lex_punctuation (t := .openObject) rfl, lex_line, lex_member hv _ hrest,
      lex_membersText hms]
    simp [lexemes, Function.comp_def]

/-- The text of a value is split into the tokens of the value, if its integers have 64 bits and its
doubles are read back. -/
theorem splitsAsWritten (l : Layout) {v : Json} (hreadable : v.isReadable) (hbounded : v.Bounded)
    (hdoubles : ∀ x ∈ v.doubles, readsBack x) : SplitsAsWritten l v := by
  rw [isReadable_iff] at hreadable
  rw [forall_doubles_iff] at hdoubles
  unfold Bounded at hbounded
  induction v using induction with
  | null => exact splitsAsWritten_of_bare rfl (List.all_eq_true.mp rfl) rfl rfl
  | bool b =>
    cases b with
    | true => exact splitsAsWritten_of_bare rfl (List.all_eq_true.mp rfl) rfl rfl
    | false => exact splitsAsWritten_of_bare rfl (List.all_eq_true.mp rfl) rfl rfl
  | integer n =>
    have hn : isInteger64 n := hbounded _ List.mem_cons_self n rfl
    refine splitsAsWritten_of_bare rfl (fun c hc ↦ ?_) (bareValue?_integerText hn) rfl
    rcases isDigit_or_eq_of_mem_integerText hc with hdigit | rfl
    · exact isBareChar_of_isDigit hdigit
    · rfl
  | float x =>
    have hx : readsBack x := hdoubles _ List.mem_cons_self x rfl
    exact splitsAsWritten_of_bare rfl (isBareChar_of_mem_floatText x) (bareValue?_floatText hx) rfl
  | string s =>
    intro level rest _
    rw [l.text_eq_compact level _ rfl]
    exact lex_stringText s rest
  | array elements ih =>
    rw [forall_parts_array_iff] at hreadable hbounded hdoubles
    exact splitsAsWritten_array fun v hv ↦
      ih v hv (hreadable.2 v hv) (hbounded.2 v hv) (hdoubles.2 v hv)
  | object members ih =>
    rw [forall_parts_object_iff] at hreadable hbounded hdoubles
    exact splitsAsWritten_object fun m hm ↦
      ih m hm (hreadable.2 m hm) (hbounded.2 m hm) (hdoubles.2 m hm)
  | unreadable => exact absurd rfl (hreadable _ List.mem_cons_self)

end DeskCalculator.Json
