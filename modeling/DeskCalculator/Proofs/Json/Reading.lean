import DeskCalculator.Proofs.Json.Layout

/-!
# Reading a written value

The reader makes a value of its tokens, whatever is open around it (`readsAsMade`). So a value is
read from its text in either layout, and a store reads what it has written
(`readStored?_pretty`).
-/

namespace DeskCalculator.Json

/-! ### Values of tokens -/

theorem readTokens_cons_of_readStep {s r : ReadState} {t : Token} (h : readStep s t = some r)
    (ts : List Token) : readTokens s (t :: ts) = readTokens r ts := by
  rw [readTokens, h]
  rfl

/-- Whether the tokens of a value are read as the value, whatever is open and whatever follows. -/
def ReadsAsMade (v : Json) : Prop :=
  ∀ stack ts, readTokens (.value stack) (lexemes v ++ ts) = readTokens (supply v stack) ts

private theorem readTokens_elementLexemes {elements : List Json} (h : ∀ v ∈ elements, v.ReadsAsMade)
    (read : List Json) (stack : List Frame) (ts : List Token) :
    readTokens (.afterElement read stack) (elementLexemes elements ++ ts) =
      readTokens (supply (array (read.reverse ++ elements)) stack) ts := by
  induction elements generalizing read with
  | nil =>
    rw [List.append_nil]
    exact readTokens_cons_of_readStep rfl ts
  | cons v vs ih =>
    obtain ⟨hv, hvs⟩ := List.forall_mem_cons.mp h
    simp only [elementLexemes, List.cons_append, List.append_assoc]
    rw [readTokens_cons_of_readStep (r := .value (.array read :: stack)) rfl, hv, supply, ih hvs,
      List.reverse_cons, List.append_assoc, List.singleton_append]

/-- Members with keys that are all readable, as they are held while an object is open. -/
def heldMembers (members : List (String × Json)) : List (Option String × Json) :=
  (members.map fun m ↦ (some m.1, m.2)).reverse

private theorem ofMembers_heldMembers (members : List (String × Json)) :
    ofMembers (heldMembers members) = object members := by
  have hmapM : (members.map fun m ↦ (some m.1, m.2)).mapM
      (fun m : Option String × Json ↦ m.1.map (·, m.2)) = some members := by
    induction members with
    | nil => rfl
    | cons m ms ih => simp [ih]
  rw [ofMembers, heldMembers, List.reverse_reverse, hmapM]

private theorem readTokens_memberLexemes {members : List (String × Json)}
    (h : ∀ m ∈ members, m.2.ReadsAsMade) (before : List (String × Json)) (stack : List Frame)
    (ts : List Token) :
    readTokens (.afterMember (heldMembers before) stack) (memberLexemes members ++ ts) =
      readTokens (supply (object (before ++ members)) stack) ts := by
  induction members generalizing before with
  | nil =>
    rw [List.append_nil, ← ofMembers_heldMembers]
    exact readTokens_cons_of_readStep rfl ts
  | cons m ms ih =>
    obtain ⟨key, v⟩ := m
    obtain ⟨hv, hms⟩ := List.forall_mem_cons.mp h
    have hheld : (some key, v) :: heldMembers before = heldMembers (before ++ [(key, v)]) := by
      simp [heldMembers]
    simp only [memberLexemes, List.cons_append, List.append_assoc]
    rw [readTokens_cons_of_readStep (r := .key (heldMembers before) stack) rfl,
      readTokens_cons_of_readStep (r := .colon (heldMembers before) (some key) stack) rfl,
      readTokens_cons_of_readStep
        (r := .value (.object (heldMembers before) (some key) :: stack)) rfl,
      hv, supply, hheld, ih hms, List.append_assoc, List.singleton_append]

/-- A value does not begin with the end of an array. -/
private theorem readTokens_firstElement (v : Json) (stack : List Frame) (ts : List Token) :
    readTokens (.firstElement stack) (lexemes v ++ ts) =
      readTokens (.value (.array [] :: stack)) (lexemes v ++ ts) := by
  cases v with
  | array elements => cases elements <;> rfl
  | object members => cases members <;> rfl
  | _ => rfl

private theorem readsAsMade (v : Json) : v.ReadsAsMade := by
  induction v using induction with
  | array elements ih =>
    intro stack ts
    cases elements with
    | nil => rfl
    | cons v vs =>
      obtain ⟨hv, hvs⟩ := List.forall_mem_cons.mp ih
      simp only [lexemes, List.cons_append, List.append_assoc]
      rw [readTokens_cons_of_readStep (r := .firstElement stack) rfl, readTokens_firstElement, hv,
        supply, readTokens_elementLexemes hvs]
      rfl
  | object members ih =>
    intro stack ts
    cases members with
    | nil => rfl
    | cons m ms =>
      obtain ⟨key, v⟩ := m
      obtain ⟨hv, hms⟩ := List.forall_mem_cons.mp ih
      simp only [lexemes, List.cons_append, List.append_assoc]
      rw [readTokens_cons_of_readStep (r := .firstKey stack) rfl,
        readTokens_cons_of_readStep (r := .colon [] (some key) stack) rfl,
        readTokens_cons_of_readStep (r := .value (.object [] (some key) :: stack)) rfl, hv]
      exact readTokens_memberLexemes hms [(key, v)] stack ts
  | _ => intro stack ts; rfl

/-- A value is read from its text. -/
theorem read?_text (l : Layout) {v : Json} (hreadable : v.isReadable) (hbounded : v.Bounded)
    (hdoubles : ∀ x ∈ v.doubles, readsBack x) : read? (l.text 0 v) = some v := by
  have htokens : tokens? (l.text 0 v) = some (lexemes v) := by
    have hsplit := splitsAsWritten l hreadable hbounded hdoubles 0 [] (by simp [EndsBare])
    rw [List.append_nil] at hsplit
    rw [tokens?, hsplit, lex, Option.map_some, List.append_nil]
  have hread : readTokens (.value []) (lexemes v) = some (.done v) := by
    have hmade := readsAsMade v [] []
    rw [List.append_nil] at hmade
    rw [hmade, supply, readTokens]
  rw [read?, htokens, Option.bind_eq_bind, Option.bind_some, hread]
  rfl

/-- A value is read from its compact text. -/
theorem read?_compact {v : Json} (hreadable : v.isReadable) (hbounded : v.Bounded)
    (hdoubles : ∀ x ∈ v.doubles, readsBack x) : read? (compact v) = some v :=
  read?_text .dense hreadable hbounded hdoubles

/-- A store reads the value that it has written. -/
theorem readStored?_pretty {v : Json} (hheld : v.Held) (hdoubles : ∀ x ∈ v.doubles, readsBack x)
    (hdepth : v.depth ≤ maxDepth) : readStored? (pretty 0 v) = some v := by
  have hread : read? (pretty 0 v) = some v :=
    read?_text .indented hheld.isReadable hheld.bounded hdoubles
  rw [readStored?, hread]
  simp [hheld.isReadable, hdepth, hheld.sorted_eq]

end DeskCalculator.Json
