import DeskCalculator.Proofs.Json.Lexing

/-!
# Parts of a read value

The reader makes strings, arrays and objects, and takes every other value from a run without quotes.
What holds of all of these holds of every part of a value that is read (`allParts_of_read?`), since
one token keeps it true of everything that has been read (`allParts_of_readStep`).
-/

namespace DeskCalculator.Json

/-! ### Tokens -/

theorem atom_not_mem_of_beginToken {c : Char} {r : List Token × LexState}
    (h : beginToken c = some r) (v : Json) : Token.atom v ∉ r.1 := by
  unfold beginToken at h
  split at h
  · cases h
    exact List.not_mem_nil
  split at h
  · cases h
    exact List.not_mem_nil
  split at h
  · cases h
    exact List.not_mem_nil
  · obtain ⟨t, ht, rfl⟩ := Option.map_eq_some_iff.mp h
    intro hmem
    rw [← List.mem_singleton.mp hmem] at ht
    unfold punctuation? at ht
    split at ht <;> cases ht

/-- Inside a string no value is completed but the string. -/
private theorem atom_not_mem_of_lexStep {s : LexState} {c : Char} {r : List Token × LexState}
    (h : lexStep s c = some r) (hs : ∀ read, s ≠ .bare read) (v : Json) : Token.atom v ∉ r.1 := by
  cases s with
  | between => exact atom_not_mem_of_beginToken h v
  | bare read => exact absurd rfl (hs read)
  | inString read =>
    unfold lexStep at h
    grind [stringToken]
  | escape read =>
    rw [lexStep] at h
    split at h
    · cases h
      exact List.not_mem_nil
    · obtain ⟨e, -, rfl⟩ := Option.map_eq_some_iff.mp h
      exact List.not_mem_nil
  | code read owed number =>
    rw [lexStep] at h
    obtain ⟨digit, -, h⟩ := Option.bind_eq_some_iff.mp h
    split at h
    · cases h
      exact List.not_mem_nil
    · cases h
      exact List.not_mem_nil

/-- A value that is no string and has no parts stands for a run without quotes. -/
private theorem exists_bareValue?_of_lexStep {s : LexState} {c : Char} {r : List Token × LexState}
    (h : lexStep s c = some r) {v : Json} (hv : .atom v ∈ r.1) :
    ∃ run, bareValue? run = some v := by
  by_cases hs : ∃ read, s = .bare read
  · obtain ⟨read, rfl⟩ := hs
    rw [lexStep] at h
    split at h
    · cases h
      cases hv
    · obtain ⟨w, hw, h⟩ := Option.bind_eq_some_iff.mp h
      obtain ⟨q, hq, h⟩ := Option.bind_eq_some_iff.mp h
      cases h
      rcases List.mem_cons.mp hv with heq | hv
      · cases heq
        exact ⟨_, hw⟩
      · exact absurd hv (atom_not_mem_of_beginToken hq v)
  · exact absurd hv (atom_not_mem_of_lexStep h (fun read heq ↦ hs ⟨read, heq⟩) v)

private theorem exists_bareValue?_of_lex {s : LexState} {cs : List Char} {ts : List Token}
    (h : lex s cs = some ts) {v : Json} (hv : .atom v ∈ ts) : ∃ run, bareValue? run = some v := by
  induction cs generalizing s ts with
  | nil =>
    unfold lex at h
    split at h
    · cases h
      cases hv
    · obtain ⟨w, hw, rfl⟩ := Option.map_eq_some_iff.mp h
      cases List.mem_singleton.mp hv
      exact ⟨_, hw⟩
    · cases h
  | cons c cs ih =>
    rw [lex_cons] at h
    obtain ⟨r, hr, h⟩ := Option.bind_eq_some_iff.mp h
    obtain ⟨us, hus, rfl⟩ := Option.map_eq_some_iff.mp h
    rcases List.mem_append.mp hv with hv | hv
    · exact exists_bareValue?_of_lexStep hr hv
    · exact ih hus hv

/-- A run without quotes is one of three words or a numeral. -/
private theorem bareValue?_cases {run : List Char} {v : Json} (h : bareValue? run = some v) :
    v = null ∨ (∃ b, v = bool b) ∨ ∃ n : Numeral, v = n.value := by
  unfold bareValue? at h
  split at h
  · cases h
    exact .inl rfl
  split at h
  · cases h
    exact .inr (.inl ⟨true, rfl⟩)
  split at h
  · cases h
    exact .inr (.inl ⟨false, rfl⟩)
  · obtain ⟨n, -, rfl⟩ := Option.map_eq_some_iff.mp h
    exact .inr (.inr ⟨n, rfl⟩)

/-- Nothing is nested in a numeral. -/
private theorem parts_value (n : Numeral) : n.value.parts = [n.value] := by
  unfold Numeral.value
  dsimp only
  split
  · rfl
  split
  · rfl
  split
  · rfl
  · rfl

/-! ### Values -/

/-- What holds of every value that the reader makes or takes from a run without quotes. -/
structure HoldsOfRead (P : Json → Prop) : Prop where
  null : P null
  bool : ∀ b, P (bool b)
  numeral : ∀ n : Numeral, P n.value
  string : ∀ s, P (string s)
  array : ∀ elements, P (array elements)
  object : ∀ members, P (object members)
  unreadable : P unreadable

/-- Whether something holds of a value and all that is nested in it. -/
def AllParts (P : Json → Prop) (v : Json) : Prop :=
  ∀ w ∈ v.parts, P w

/-- Whether something holds of all parts of the value of a token. -/
def Token.AllParts (P : Json → Prop) : Token → Prop
  | .atom v => v.AllParts P
  | _ => True

/-- Whether something holds of all parts of what has been read of an open array or object. -/
def Frame.AllParts (P : Json → Prop) : Frame → Prop
  | .array read => ∀ v ∈ read, v.AllParts P
  | .object read _ => ∀ m ∈ read, m.2.AllParts P

/-- Whether something holds of all parts of everything that has been read. -/
def ReadState.AllParts (P : Json → Prop) : ReadState → Prop
  | .value stack | .firstElement stack | .firstKey stack => ∀ f ∈ stack, f.AllParts P
  | .afterElement read stack => ∀ f ∈ .array read :: stack, f.AllParts P
  | .key read stack | .colon read _ stack | .afterMember read stack =>
    ∀ f ∈ .object read none :: stack, f.AllParts P
  | .done v => v.AllParts P

variable {P : Json → Prop} (hP : HoldsOfRead P)

include hP

private theorem HoldsOfRead.allParts_array {elements : List Json}
    (h : ∀ v ∈ elements, v.AllParts P) : (Json.array elements).AllParts P :=
  forall_parts_array_iff.mpr ⟨hP.array elements, h⟩

private theorem HoldsOfRead.allParts_object {members : List (String × Json)}
    (h : ∀ m ∈ members, m.2.AllParts P) : (Json.object members).AllParts P :=
  forall_parts_object_iff.mpr ⟨hP.object members, h⟩

private theorem HoldsOfRead.allParts_string (s : String) : (Json.string s).AllParts P :=
  List.forall_mem_singleton.mpr (hP.string s)

private theorem HoldsOfRead.allParts_unreadable : Json.unreadable.AllParts P :=
  List.forall_mem_singleton.mpr hP.unreadable

private theorem HoldsOfRead.allParts_bare {run : List Char} {v : Json}
    (h : bareValue? run = some v) : v.AllParts P := by
  rcases bareValue?_cases h with rfl | ⟨b, rfl⟩ | ⟨n, rfl⟩
  · exact List.forall_mem_singleton.mpr hP.null
  · exact List.forall_mem_singleton.mpr (hP.bool b)
  · rw [Json.AllParts, parts_value]
    exact List.forall_mem_singleton.mpr (hP.numeral n)

private theorem allParts_of_tokens? {cs : List Char} {ts : List Token} (h : tokens? cs = some ts) :
    ∀ t ∈ ts, t.AllParts P := by
  intro t ht
  cases t with
  | atom v =>
    obtain ⟨run, hrun⟩ := exists_bareValue?_of_lex h ht
    exact hP.allParts_bare hrun
  | _ => trivial

omit hP in
private theorem allParts_supply {v : Json} {stack : List Frame} (hv : v.AllParts P)
    (hstack : ∀ f ∈ stack, f.AllParts P) : (supply v stack).AllParts P := by
  cases stack with
  | nil => exact hv
  | cons f stack =>
    obtain ⟨hf, houter⟩ := List.forall_mem_cons.mp hstack
    cases f with
    | array read => exact List.forall_mem_cons.mpr ⟨List.forall_mem_cons.mpr ⟨hv, hf⟩, houter⟩
    | object read key =>
      exact List.forall_mem_cons.mpr ⟨List.forall_mem_cons.mpr ⟨hv, hf⟩, houter⟩

private theorem allParts_ofMembers {read : List (Option String × Json)}
    (h : ∀ m ∈ read, m.2.AllParts P) : (ofMembers read).AllParts P := by
  rw [ofMembers]
  split
  · next members hmembers =>
    apply hP.allParts_object
    intro m hm
    obtain ⟨n, hn, hnm⟩ := exists_of_mem_mapM hmembers hm
    obtain ⟨key, -, rfl⟩ := Option.map_eq_some_iff.mp hnm
    exact h n (List.mem_reverse.mp hn)
  · exact hP.allParts_unreadable

private theorem allParts_of_beginValue {stack : List Frame} {t : Token} {s : ReadState}
    (hstack : ∀ f ∈ stack, f.AllParts P) (ht : t.AllParts P) (h : beginValue stack t = some s) :
    s.AllParts P := by
  unfold beginValue at h
  split at h
  · cases h
    exact hstack
  · cases h
    exact hstack
  · cases h
    exact allParts_supply (hP.allParts_string _) hstack
  · cases h
    exact allParts_supply hP.allParts_unreadable hstack
  · cases h
    exact allParts_supply ht hstack
  · cases h

/-- One token keeps it true of everything that has been read. -/
private theorem allParts_of_readStep {s s' : ReadState} {t : Token} (hs : s.AllParts P)
    (ht : t.AllParts P) (h : readStep s t = some s') : s'.AllParts P := by
  unfold readStep at h
  split at h
  · exact allParts_of_beginValue hP hs ht h
  · cases h
    exact allParts_supply (hP.allParts_array (List.forall_mem_nil _)) hs
  · refine allParts_of_beginValue hP (List.forall_mem_cons.mpr ⟨?_, hs⟩) ht h
    exact List.forall_mem_nil _
  · cases h
    exact allParts_supply (hP.allParts_object (List.forall_mem_nil _)) hs
  · cases h
    exact List.forall_mem_cons.mpr ⟨List.forall_mem_nil _, hs⟩
  · cases h
    exact hs
  · cases h
    obtain ⟨hread, hstack⟩ := List.forall_mem_cons.mp hs
    exact List.forall_mem_cons.mpr ⟨hread, hstack⟩
  · cases h
    exact hs
  · cases h
    obtain ⟨hread, hstack⟩ := List.forall_mem_cons.mp hs
    exact allParts_supply (hP.allParts_array fun v hv ↦ hread v (List.mem_reverse.mp hv)) hstack
  · cases h
    exact hs
  · cases h
    obtain ⟨hread, hstack⟩ := List.forall_mem_cons.mp hs
    exact allParts_supply (allParts_ofMembers hP hread) hstack
  · cases h

private theorem allParts_of_readTokens {s s' : ReadState} {ts : List Token} (hs : s.AllParts P)
    (hts : ∀ t ∈ ts, t.AllParts P) (h : readTokens s ts = some s') : s'.AllParts P := by
  induction ts generalizing s with
  | nil =>
    cases h
    exact hs
  | cons t ts ih =>
    obtain ⟨ht, hts⟩ := List.forall_mem_cons.mp hts
    rw [readTokens] at h
    obtain ⟨s'', hstep, h⟩ := Option.bind_eq_some_iff.mp h
    exact ih (allParts_of_readStep hP hs ht hstep) hts h

/-- It holds of every part of a value that is read. -/
theorem allParts_of_read? {cs : List Char} {v : Json} (h : read? cs = some v) :
    v.AllParts P := by
  obtain ⟨ts, hts, h⟩ := Option.bind_eq_some_iff.mp h
  obtain ⟨s, hs, h⟩ := Option.bind_eq_some_iff.mp h
  have hall := allParts_of_readTokens hP (s := .value []) (List.forall_mem_nil _)
    (allParts_of_tokens? hP hts) hs
  split at h
  · cases h
    exact hall
  · cases h

end DeskCalculator.Json
