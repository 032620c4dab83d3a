import DeskCalculator.Proofs.Toml.Bare
import DeskCalculator.Proofs.Toml.Quoted

/-!
# Documents that are written line by line

A writer gives each expression a line: a header, a key with its value, or nothing between two
sections. Reading such a document carries out its lines one after the other, each on what the lines
before it have made.
-/

namespace DeskCalculator.Toml

/-- A line of a document, with what it says. -/
inductive Line where
  | blank
  /-- The header of a table, under the tables on the way to it. -/
  | header (path : List String) (key : String)
  /-- A key with the text of its value, and the value. -/
  | member (key : String) (text : List Char) (value : Toml)

/-- The parts of a header on the way, each with a point behind it. -/
def pathText (path : List String) : List Char :=
  path.flatMap fun part ↦ part.toList ++ ['.']

/-- A line as it is written. -/
def Line.text : Line → List Char
  | blank => ['\n']
  | header path key => '[' :: (pathText path ++ key.toList) ++ "]\n".toList
  | member key text _ => Settings.Config.memberLine key text

/-- What a line does to what has been read. -/
def Line.apply (d : Partial) : Line → Option Partial
  | blank => some d
  | header path key =>
    (changeAt? (openTable? key) path d.members).map fun members ↦ ⟨members, path ++ [key]⟩
  | member key _ value =>
    (changeAt? (addDotted? key value []) d.path d.members).map fun members ↦ { d with members }

/-- Whether a key is written without quotes. -/
structure IsBareKey (key : String) : Prop where
  ne_nil : key.toList ≠ []
  isKeyChar_of_mem : ∀ c ∈ key.toList, isKeyChar c

theorem IsBareKey.of_all {key : String} (hne : key.isEmpty = false)
    (h : key.toList.all isKeyChar) : IsBareKey key where
  ne_nil hnil := by simp [String.toList_eq_nil_iff.mp hnil] at hne
  isKeyChar_of_mem := List.all_eq_true.mp h

/-- Whether the value of a line is what its text is read as, and its keys need no quotes. -/
def Line.IsRead : Line → Prop
  | blank => True
  | header path key =>
    (∀ part ∈ path, IsBareKey part) ∧ IsBareKey key ∧ path.length < maxNesting - 1
  | member key text value =>
    IsBareKey key ∧ ∀ rest, skipBlanks (text ++ '\n' :: rest) = text ++ '\n' :: rest ∧
      readTopValue? (text ++ '\n' :: rest) = some (value, '\n' :: rest)

/-! ### Keys -/

theorem skipBlanks_cons {c : Char} (h : isBlank c = false) (cs : List Char) :
    skipBlanks (c :: cs) = c :: cs := by
  rw [skipBlanks, List.dropWhile_cons, if_neg (by rw [h]; decide)]

private theorem ne_of_isKeyChar {c d : Char} (hc : isKeyChar c) (hd : isKeyChar d = false) :
    c ≠ d := by
  rintro rfl
  rw [hc] at hd
  cases hd

private theorem isBlank_eq_false_of_isKeyChar {c : Char} (h : isKeyChar c) : isBlank c = false := by
  rw [isBlank, Bool.or_eq_false_iff, beq_eq_false_iff_ne, beq_eq_false_iff_ne]
  exact ⟨ne_of_isKeyChar h (by decide), ne_of_isKeyChar h (by decide)⟩

section

variable {key : String} {rest : List Char} {d : Char}

/-- A key without quotes begins with a character of its own. -/
theorem IsBareKey.exists_cons (hkey : IsBareKey key) :
    ∃ c cs, key.toList = c :: cs ∧ isKeyChar c := by
  obtain ⟨c, cs, hcons⟩ := List.exists_cons_of_ne_nil hkey.ne_nil
  exact ⟨c, cs, hcons, hkey.isKeyChar_of_mem c (by simp [hcons])⟩

private theorem IsBareKey.skipBlanks_append (hkey : IsBareKey key) (rest : List Char) :
    skipBlanks (key.toList ++ rest) = key.toList ++ rest := by
  obtain ⟨c, cs, hcons, hc⟩ := hkey.exists_cons
  rw [hcons]
  exact skipBlanks_cons (isBlank_eq_false_of_isKeyChar hc) _

/-- A key without quotes is read up to the first character that is not part of it. -/
theorem IsBareKey.readKeyPart? (hkey : IsBareKey key) (hd : isKeyChar d = false) :
    readKeyPart? (key.toList ++ d :: rest) = some (key, d :: rest) := by
  have htake : (key.toList ++ d :: rest).takeWhile isKeyChar = key.toList := by
    rw [List.takeWhile_append_of_pos hkey.isKeyChar_of_mem, List.takeWhile_cons,
      if_neg (by rw [hd]; decide), List.append_nil]
  have hdrop : (key.toList ++ d :: rest).dropWhile isKeyChar = d :: rest := by
    rw [List.dropWhile_append_of_pos hkey.isKeyChar_of_mem, List.dropWhile_cons,
      if_neg (by rw [hd]; decide)]
  obtain ⟨c, cs, hcons, hc⟩ := hkey.exists_cons
  unfold Toml.readKeyPart?
  split
  · next heq =>
    rw [hcons] at heq
    cases heq
    cases hc
  · next heq =>
    rw [hcons] at heq
    cases heq
    cases hc
  · rw [htake, hdrop]
    split
    · next hnil => exact absurd hnil hkey.ne_nil
    · rw [String.ofList_toList]

/-- The last part of a key. -/
private theorem IsBareKey.readKeyParts?_last (hkey : IsBareKey key) (hd : isKeyChar d = false)
    (hpoint : (skipBlanks (d :: rest)).head? ≠ some '.') (n : ℕ) :
    readKeyParts? (n + 1) (key.toList ++ d :: rest) = some ([key], skipBlanks (d :: rest)) := by
  rw [readKeyParts?, hkey.skipBlanks_append, hkey.readKeyPart? hd]
  simp only [Option.bind_eq_bind, Option.bind_some]
  split
  · next heq =>
    rw [heq] at hpoint
    exact absurd rfl hpoint
  · rfl

/-- A part of a key with more behind a point. -/
private theorem IsBareKey.readKeyParts?_point (hkey : IsBareKey key) (n : ℕ) :
    readKeyParts? (n + 1) (key.toList ++ '.' :: rest) =
      (readKeyParts? n rest).map fun x ↦ (key :: x.1, x.2) := by
  rw [readKeyParts?, hkey.skipBlanks_append, hkey.readKeyPart? (by decide)]
  simp only [Option.bind_eq_bind, Option.bind_some, skipBlanks_cons (c := '.') rfl]
  cases readKeyParts? n rest with
  | none => rfl
  | some x => rfl

/-- A key with its parts on the way is read up to what follows it. -/
private theorem readKeyParts?_pathText {path : List String} (hpath : ∀ part ∈ path, IsBareKey part)
    (hkey : IsBareKey key) (hd : isKeyChar d = false)
    (hpoint : (skipBlanks (d :: rest)).head? ≠ some '.') {n : ℕ} (hn : path.length < n) :
    readKeyParts? n (pathText path ++ (key.toList ++ d :: rest)) =
      some (path ++ [key], skipBlanks (d :: rest)) := by
  induction path generalizing n with
  | nil =>
    obtain ⟨n, rfl⟩ := Nat.exists_eq_succ_of_ne_zero (Nat.ne_of_gt hn)
    exact hkey.readKeyParts?_last hd hpoint n
  | cons part path ih =>
    obtain ⟨hpart, hpath⟩ := List.forall_mem_cons.mp hpath
    obtain ⟨n, rfl⟩ := Nat.exists_eq_succ_of_ne_zero (Nat.ne_zero_of_lt hn)
    have hsplit : pathText (part :: path) ++ (key.toList ++ d :: rest) =
        part.toList ++ '.' :: (pathText path ++ (key.toList ++ d :: rest)) := by
      simp [pathText]
    rw [hsplit, hpart.readKeyParts?_point, ih hpath (Nat.lt_of_succ_lt_succ hn)]
    rfl

/-- So is the key of a header or of a member. -/
theorem readKey?_pathText {path : List String} (hpath : ∀ part ∈ path, IsBareKey part)
    (hkey : IsBareKey key) (hd : isKeyChar d = false)
    (hpoint : (skipBlanks (d :: rest)).head? ≠ some '.') (hlength : path.length < maxNesting - 1) :
    readKey? (pathText path ++ (key.toList ++ d :: rest)) =
      some (path, key, skipBlanks (d :: rest)) := by
  rw [readKey?, readKeyParts?_pathText hpath hkey hd hpoint hlength]
  simp

end

/-! ### Lines -/

section

variable {line : Line} {d : Partial} {rest : List Char}

private theorem skipLineRest?_newline (rest : List Char) :
    skipLineRest? ('\n' :: rest) = some rest := rfl

private theorem readHeader?_line {path : List String} {key : String}
    (h : (Line.header path key).IsRead) :
    readHeader? d false (pathText path ++ (key.toList ++ ']' :: '\n' :: rest)) =
      ((Line.header path key).apply d).map (·, rest) := by
  obtain ⟨hpath, hkey, hlength⟩ := h
  have hbracket : skipBlanks (']' :: '\n' :: rest) = ']' :: '\n' :: rest := skipBlanks_cons rfl _
  rw [readHeader?, readKey?_pathText hpath hkey (by decide) (by simp [hbracket]) hlength, hbracket,
    Line.apply]
  simp only [Option.bind_eq_bind, Option.bind_some, skipLineRest?_newline, Bool.false_eq_true,
    if_false]
  cases changeAt? (openTable? key) path d.members with
  | none => rfl
  | some members => rfl

private theorem readMember?_line {key : String} {text : List Char} {value : Toml}
    (h : (Line.member key text value).IsRead) (rest : List Char) :
    readMember? readTopValue? ((Line.member key text value).text ++ rest) =
      some ([], key, value, '\n' :: rest) := by
  obtain ⟨hkey, hvalue⟩ := h
  obtain ⟨hblanks, hread⟩ := hvalue rest
  have hsplit : (Line.member key text value).text ++ rest =
      pathText [] ++ (key.toList ++ ' ' :: '=' :: ' ' :: (text ++ '\n' :: rest)) := by
    simp [Line.text, Settings.Config.memberLine, pathText]
  have hequals : skipBlanks (' ' :: '=' :: ' ' :: (text ++ '\n' :: rest)) =
      '=' :: ' ' :: (text ++ '\n' :: rest) := rfl
  have hspace : skipBlanks (' ' :: (text ++ '\n' :: rest)) = text ++ '\n' :: rest := hblanks
  rw [readMember?, hsplit,
    readKey?_pathText (List.forall_mem_nil _) hkey (by decide) (by simp [hequals]) (by decide),
    hequals]
  simp only [Option.bind_eq_bind, Option.bind_some, hspace, hread]
  rfl

/-- A header begins with a character of its first key. -/
private theorem exists_cons_pathText {path : List String} {key : String}
    (hpath : ∀ part ∈ path, IsBareKey part) (hkey : IsBareKey key) (rest : List Char) :
    ∃ c cs, pathText path ++ (key.toList ++ rest) = c :: cs ∧ isKeyChar c := by
  cases path with
  | nil =>
    obtain ⟨c, cs, hcons, hc⟩ := hkey.exists_cons
    exact ⟨c, cs ++ rest, by rw [hcons]; rfl, hc⟩
  | cons part path =>
    obtain ⟨c, cs, hcons, hc⟩ := (hpath part List.mem_cons_self).exists_cons
    exact ⟨c, _, by rw [pathText, List.flatMap_cons, hcons]; rfl, hc⟩

/-- One bracket before a key opens a header. -/
private theorem readExpression?_bracket {c : Char} (hc : isKeyChar c) (cs : List Char) :
    readExpression? d ('[' :: c :: cs) = readHeader? d false (c :: cs) := by
  unfold readExpression?
  split
  · next heq =>
    cases heq
    exact absurd hc (by decide)
  · next heq =>
    cases heq
    rfl
  · next heq => cases heq
  · next heq => cases heq
  · next heq => cases heq
  · next hheader _ _ _ => exact absurd rfl (hheader _)

/-- A key opens a member. -/
private theorem readExpression?_key {c : Char} (hc : isKeyChar c) (cs : List Char) :
    readExpression? d (c :: cs) = (do
      let (path, key, v, cs) ← readMember? readTopValue? (c :: cs)
      let cs ← skipLineRest? cs
      let members ← changeAt? (addDotted? key v path) d.path d.members
      return ({ d with members }, cs)) := by
  have hne {e : Char} (he : isKeyChar e = false) {es : List Char} : c :: cs ≠ e :: es :=
    fun heq ↦ ne_of_isKeyChar hc he (List.cons.inj heq).1
  unfold readExpression?
  split
  · next heq => exact absurd heq (hne (by decide))
  · next heq => exact absurd heq (hne (by decide))
  · next heq => exact absurd heq (hne (by decide))
  · next heq => exact absurd heq (hne (by decide))
  · next heq => exact absurd heq (hne (by decide))
  · rfl

/-- Reading a line carries it out. -/
private theorem readExpression?_line (h : line.IsRead) :
    readExpression? d (line.text ++ rest) = (line.apply d).map (·, rest) := by
  cases line with
  | blank => rfl
  | header path key =>
    have hsplit : (Line.header path key).text ++ rest =
        '[' :: (pathText path ++ (key.toList ++ ']' :: '\n' :: rest)) := by
      simp [Line.text]
    obtain ⟨c, cs, hcons, hc⟩ := exists_cons_pathText h.1 h.2.1 (']' :: '\n' :: rest)
    rw [hsplit, ← readHeader?_line h, hcons, readExpression?_bracket hc]
  | member key text value =>
    obtain ⟨c, cs, hcons, hc⟩ := h.1.exists_cons
    have hread := readMember?_line h rest
    have hsplit : (Line.member key text value).text ++ rest =
        c :: (cs ++ (" = ".toList ++ text ++ ['\n'] ++ rest)) := by
      simp [Line.text, Settings.Config.memberLine, hcons]
    rw [hsplit] at hread ⊢
    rw [readExpression?_key hc, hread]
    simp only [Option.bind_eq_bind, Option.bind_some, skipLineRest?_newline, Line.apply]
    cases changeAt? (addDotted? key value []) d.path d.members with
    | none => rfl
    | some members => rfl

/-- Something stands on every line that is no blank and no byte order mark. -/
theorem Line.exists_cons_text (h : line.IsRead) :
    ∃ c cs, line.text = c :: cs ∧ isBlank c = false ∧ c ≠ '\uFEFF' := by
  cases line with
  | blank => exact ⟨_, _, rfl, by decide, by decide⟩
  | header path key => exact ⟨_, _, rfl, by decide, by decide⟩
  | member key text value =>
    obtain ⟨c, cs, hcons, hc⟩ := h.1.exists_cons
    refine ⟨c, cs ++ (" = ".toList ++ text ++ ['\n']), ?_, isBlank_eq_false_of_isKeyChar hc,
      ne_of_isKeyChar hc (by decide)⟩
    simp [Line.text, Settings.Config.memberLine, hcons]

end

/-! ### Documents -/

section

variable {lines : List Line}

/-- Lines are read one after the other. -/
private theorem readExpressions?_lines (h : ∀ line ∈ lines, line.IsRead) {n : ℕ}
    (hn : lines.length < n) (d : Partial) :
    readExpressions? n d (lines.flatMap Line.text) =
      (lines.foldlM Line.apply d).map Partial.members := by
  induction lines generalizing n d with
  | nil =>
    obtain ⟨n, rfl⟩ := Nat.exists_eq_succ_of_ne_zero (Nat.ne_zero_of_lt hn)
    rfl
  | cons line lines ih =>
    obtain ⟨hline, hlines⟩ := List.forall_mem_cons.mp h
    obtain ⟨n, rfl⟩ := Nat.exists_eq_succ_of_ne_zero (Nat.ne_zero_of_lt hn)
    obtain ⟨c, cs, hcons, hblank, -⟩ := Line.exists_cons_text hline
    have hskip : skipBlanks (line.text ++ lines.flatMap Line.text) =
        line.text ++ lines.flatMap Line.text := by
      rw [hcons]
      exact skipBlanks_cons hblank _
    rw [List.flatMap_cons, readExpressions?, hskip, List.foldlM_cons]
    split
    · next hnil =>
      rw [hcons] at hnil
      cases hnil
    · rw [readExpression?_line hline]
      cases line.apply d with
      | none => rfl
      | some d => exact ih hlines (Nat.lt_of_succ_lt_succ hn) d

private theorem length_le_length_flatMap_text (h : ∀ line ∈ lines, line.IsRead) :
    lines.length ≤ (lines.flatMap Line.text).length := by
  induction lines with
  | nil => exact Nat.le_refl 0
  | cons line lines ih =>
    obtain ⟨hline, hlines⟩ := List.forall_mem_cons.mp h
    obtain ⟨c, cs, hcons, -⟩ := Line.exists_cons_text hline
    have hrest := ih hlines
    rw [List.flatMap_cons, List.length_append, hcons, List.length_cons, List.length_cons]
    omega

/-- A document that is written line by line is read as what its lines do. -/
theorem readDocument?_lines (h : ∀ line ∈ lines, line.IsRead) :
    readDocument? (lines.flatMap Line.text) =
      (lines.foldlM Line.apply {}).map Partial.members := by
  have hmark : (lines.flatMap Line.text).head? ≠ some '\uFEFF' := by
    cases lines with
    | nil => simp
    | cons line lines =>
      obtain ⟨c, cs, hcons, -, hc⟩ := Line.exists_cons_text (List.forall_mem_cons.mp h).1
      rw [List.flatMap_cons, hcons]
      exact fun heq ↦ hc (Option.some.inj heq)
  have hlength := length_le_length_flatMap_text h
  rw [readDocument?, if_neg hmark]
  exact readExpressions?_lines h (Nat.lt_succ_of_le hlength) {}

end

/-! ### Values -/

/-- A quoted text begins with a quote. -/
theorem exists_cons_quote (cs : List Char) :
    ∃ q more, quote cs = q :: more ∧ (q = '"' ∨ q = '\'') := by
  rw [quote]
  cases Quoting.choose cs with
  | basic => exact ⟨_, _, rfl, .inl rfl⟩
  | literal => exact ⟨_, _, rfl, .inr rfl⟩
  | multiBasic => exact ⟨_, _, rfl, .inl rfl⟩
  | multiLiteral => exact ⟨_, _, rfl, .inr rfl⟩

/-- A quoted text is read as a string. -/
private theorem readTopValue?_quote (cs rest : List Char) :
    readTopValue? (quote cs ++ '\n' :: rest) =
      some (string (String.ofList cs), '\n' :: rest) := by
  obtain ⟨q, more, hcons, hq⟩ := exists_cons_quote cs
  have hread := readString?_quote cs rest
  rw [hcons, List.cons_append] at hread ⊢
  change readValue? (maxNesting - 2 + 1) _ = _
  rw [readValue?, if_pos hq, hread]
  rfl

/-- A run of bare characters is read as the value that it spells. -/
private theorem readTopValue?_bare {run : List Char} (hne : run ≠ [])
    (hrun : ∀ c ∈ run, isBareChar c) (rest : List Char) :
    readTopValue? (run ++ '\n' :: rest) = (readBare? run).map (·, '\n' :: rest) := by
  obtain ⟨c, cs, rfl⟩ := List.exists_cons_of_ne_nil hne
  have hc (d : Char) (hd : isBareChar d = false) : c ≠ d := by
    rintro rfl
    rw [hrun c List.mem_cons_self] at hd
    cases hd
  have hquote : ¬ (c = '"' ∨ c = '\'') := not_or.mpr ⟨hc _ (by decide), hc _ (by decide)⟩
  rw [← readBareValue?_line hrun rest]
  change readValue? (maxNesting - 2 + 1) _ = _
  rw [List.cons_append, readValue?, if_neg hquote, if_neg (hc _ (by decide)),
    if_neg (hc _ (by decide))]

/-! ### Members -/

section

variable {key : String}

/-- A line with a string. -/
theorem Line.isRead_string (hkey : IsBareKey key) (s : String) :
    (Line.member key (quote s.toList) (string s)).IsRead := by
  refine ⟨hkey, fun rest ↦ ⟨?_, ?_⟩⟩
  · obtain ⟨q, more, hcons, hq⟩ := exists_cons_quote s.toList
    rw [hcons]
    refine skipBlanks_cons ?_ _
    rcases hq with rfl | rfl <;> rfl
  · rw [readTopValue?_quote, String.ofList_toList]

/-- A line with a bare value. -/
theorem Line.isRead_bare (hkey : IsBareKey key) {run : List Char} {value : Toml}
    (hrun : ∀ c ∈ run, isBareChar c) (hread : readBare? run = some value) :
    (Line.member key run value).IsRead := by
  have hne := ne_nil_of_readBare? hread
  refine ⟨hkey, fun rest ↦ ⟨?_, ?_⟩⟩
  · obtain ⟨c, cs, rfl⟩ := List.exists_cons_of_ne_nil hne
    refine skipBlanks_cons ?_ _
    have hc := hrun c List.mem_cons_self
    rw [isBlank, Bool.or_eq_false_iff, beq_eq_false_iff_ne, beq_eq_false_iff_ne]
    constructor
    · rintro rfl
      cases hc
    · rintro rfl
      cases hc
  · rw [readTopValue?_bare hne hrun, hread]
    rfl

end

end DeskCalculator.Toml
