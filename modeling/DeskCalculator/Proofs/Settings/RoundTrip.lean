import DeskCalculator.Proofs.Toml.Lines

/-!
# A saved configuration is loaded again

The text of a configuration is a document of lines, each with a key and the text of one field. They
are read back field by field, and the tables that the lines make hold the fields where the reader
looks for them.
-/

namespace DeskCalculator.Settings.Config

open Toml (Line IsBareKey quote)

/-! ### The lines -/

/-- The line of the data file, if there is one. -/
def dataFileLines : Option String → List Line
  | some path => [.member "data_file" (quote path.toList) (.string path)]
  | none => []

/-- The lines of the tax settings. -/
def taxLines (tax : Tax.Settings) : List Line :=
  [.member "isEnabled" (boolText tax.isEnabled) (.bool tax.isEnabled),
    .member "mode" (quote tax.mode.name.toList) (.string tax.mode.name),
    .member "rate" (floatText tax.rate) (.float tax.rate),
    .member "showTaxPerNumber" (boolText tax.showPerNumber) (.bool tax.showPerNumber)]

/-- The lines of a configuration. -/
def lines (c : Config) : List Line :=
  let d := c.defaults
  .header [] "storage" :: dataFileLines c.dataFile ++ .blank ::
    .header [] "calculator" ::
    .member "default_max_history" (Number.digitsOf d.maxHistory) (.integer d.maxHistory) ::
    .member "default_button_layout" (quote d.buttonLayout.toList) (.string d.buttonLayout) ::
    .blank :: .header ["calculator"] "default_tax" :: taxLines d.tax ++
    [.blank, .header [] "logging", .member "level" (quote c.logLevel.toList) (.string c.logLevel)]

section

variable {key : String}

private theorem isRead_bool (hkey : IsBareKey key) (b : Bool) :
    (Line.member key (boolText b) (.bool b)).IsRead := by
  refine Line.isRead_bare hkey ?_ (Toml.readBare?_boolText b)
  cases b with
  | false => exact List.all_eq_true.mp rfl
  | true => exact List.all_eq_true.mp rfl

private theorem isRead_size (hkey : IsBareKey key) {n : ℕ} (h : n < 2 ^ 63) :
    (Line.member key (Number.digitsOf n) (.integer n)).IsRead :=
  Line.isRead_bare hkey
    (fun _ hc ↦ Toml.isBareChar_of_isDigit (Number.isDigit_of_mem_digitsOf hc))
    (Toml.readBare?_digitsOf h)

private theorem isRead_float (hkey : IsBareKey key) (x : Float) :
    (Line.member key (floatText x) (.float x)).IsRead :=
  Line.isRead_bare hkey (Toml.isBareChar_of_mem_floatText x) (Toml.readBare?_floatText x)

private theorem isRead_of_mem_dataFileLines (dataFile : Option String) :
    ∀ line ∈ dataFileLines dataFile, line.IsRead := by
  cases dataFile with
  | none => exact List.forall_mem_nil _
  | some path => exact List.forall_mem_singleton.mpr (Line.isRead_string (.of_all rfl rfl) path)

private theorem isRead_of_mem_taxLines (tax : Tax.Settings) :
    ∀ line ∈ taxLines tax, line.IsRead := by
  simp only [taxLines, List.forall_mem_cons]
  exact ⟨isRead_bool (.of_all rfl rfl) _, Line.isRead_string (.of_all rfl rfl) _,
    isRead_float (.of_all rfl rfl) _, isRead_bool (.of_all rfl rfl) _, List.forall_mem_nil _⟩

end

variable (c : Config)

private theorem dataFileLine_eq (dataFile : Option String) :
    dataFileLine dataFile = (dataFileLines dataFile).flatMap Line.text := by
  cases dataFile with
  | none => rfl
  | some path => exact (List.append_nil _).symm

/-- A configuration is written line by line. -/
private theorem textOf_eq : c.textOf = c.lines.flatMap Line.text := by
  simp [textOf, lines, dataFileLine_eq, taxLines, Line.text, headerLine, Toml.pathText]

/-- Every line is read as what it says. -/
private theorem isRead_of_mem_lines (h : c.defaults.maxHistory < 2 ^ 63) :
    ∀ line ∈ c.lines, line.IsRead := by
  have hsection {key : String} (hkey : IsBareKey key) : (Line.header [] key).IsRead :=
    ⟨List.forall_mem_nil _, hkey, by decide⟩
  have htax : (Line.header ["calculator"] "default_tax").IsRead :=
    ⟨List.forall_mem_singleton.mpr (.of_all rfl rfl), .of_all rfl rfl, by decide⟩
  simp only [lines, List.cons_append, List.append_assoc, List.forall_mem_cons,
    List.forall_mem_append]
  exact ⟨hsection (.of_all rfl rfl), isRead_of_mem_dataFileLines _, trivial,
    hsection (.of_all rfl rfl), isRead_size (.of_all rfl rfl) h,
    Line.isRead_string (.of_all rfl rfl) _, trivial, htax, isRead_of_mem_taxLines _, trivial,
    hsection (.of_all rfl rfl), Line.isRead_string (.of_all rfl rfl) _, List.forall_mem_nil _⟩

/-! ### The tables -/

/-- The table of tax settings. -/
def taxTable (tax : Tax.Settings) : Toml :=
  .table .header [("isEnabled", .bool tax.isEnabled), ("mode", .string tax.mode.name),
    ("rate", .float tax.rate), ("showTaxPerNumber", .bool tax.showPerNumber)]

/-- The table of the defaults. -/
def defaultsTable (d : Defaults) : Toml :=
  .table .header [("default_max_history", .integer d.maxHistory),
    ("default_button_layout", .string d.buttonLayout), ("default_tax", taxTable d.tax)]

/-- The members of the table of the data file. -/
def storageMembers : Option String → Toml.Members
  | some path => [("data_file", .string path)]
  | none => []

/-- The tables that the lines make. -/
def members : Toml.Members :=
  [("storage", .table .header (storageMembers c.dataFile)),
    ("calculator", defaultsTable c.defaults),
    ("logging", .table .header [("level", .string c.logLevel)])]

private theorem foldlM_lines :
    (c.lines.foldlM Line.apply {}).map Toml.Partial.members = some c.members := by
  obtain ⟨dataFile, d, level⟩ := c
  cases dataFile with
  | none => rfl
  | some path => rfl

private theorem taxOfToml?_taxTable (tax : Tax.Settings) :
    taxOfToml? (taxTable tax) = some tax := by
  have hfields : (taxTable tax).fields? Tax.Settings.fieldNames =
      some [some (.bool tax.isEnabled), some (.string tax.mode.name), some (.float tax.rate),
        some (.bool tax.showPerNumber)] := rfl
  have hmode : modeOfToml? (.string tax.mode.name) = some tax.mode := Tax.Mode.ofName?_name _
  rw [taxOfToml?, hfields]
  simp only [Option.bind_eq_bind, Option.bind_some, Toml.orDefault?, hmode]
  rfl

private theorem defaultsOfToml?_defaultsTable (d : Defaults) :
    defaultsOfToml? (defaultsTable d) = some d := by
  have hfields : (defaultsTable d).fields?
        ["default_max_history", "default_button_layout", "default_tax"] =
      some [some (.integer d.maxHistory), some (.string d.buttonLayout), some (taxTable d.tax)] :=
    rfl
  have hsize : Toml.asSize? (.integer d.maxHistory) = some d.maxHistory := by
    rw [Toml.asSize?, if_pos (Int.natCast_nonneg _), Int.toNat_natCast]
  rw [defaultsOfToml?, hfields]
  simp only [Option.bind_eq_bind, Option.bind_some, Toml.orDefault?, hsize, taxOfToml?_taxTable]
  rfl

/-- The reader finds all fields in the tables. -/
private theorem ofMembers?_members : ofMembers? c.members = some c := by
  have hstorage : Toml.find? "storage" c.members =
      some (.table .header (storageMembers c.dataFile)) := rfl
  have hcalculator : Toml.find? "calculator" c.members = some (defaultsTable c.defaults) := rfl
  have hlogging : Toml.find? "logging" c.members =
      some (.table .header [("level", .string c.logLevel)]) := rfl
  have hdataFile : onlyField? "data_file" (fun v ↦ v.asString?.map some) none
      (.table .header (storageMembers c.dataFile)) = some c.dataFile := by
    cases c.dataFile with
    | none => rfl
    | some path => rfl
  have hlevel : onlyField? "level" Toml.asString? standard.logLevel
      (.table .header [("level", .string c.logLevel)]) = some c.logLevel := rfl
  rw [ofMembers?, hstorage, hcalculator, hlogging]
  simp only [Option.bind_eq_bind, Option.bind_some, Toml.orDefault?, hdataFile, hlevel,
    defaultsOfToml?_defaultsTable]
  rfl

/-! ### The round trip -/

/-- If TOML has an integer for its size, a configuration that is saved, whatever stood at the path
before, is loaded again with every field as it was. Otherwise it has no text, and what stood at the
path is left as it was. If nothing stood there, its directory must stand or be one that can be
created. -/
theorem load_save (before : Store.Contents) {createsDirectory : Bool}
    (hdirectory : before = .missing → createsDirectory) :
    (c.defaults.maxHistory < 2 ^ 63 →
      ∃ after, c.save before true createsDirectory = (after, .ok ()) ∧
        ∀ succeeds creates, load after succeeds creates = (after, .ok c)) ∧
    (2 ^ 63 ≤ c.defaults.maxHistory → ∀ succeeds,
      c.save before succeeds createsDirectory = (before, .error .serialize)) := by
  have hstands : ¬ (before = .missing && !createsDirectory) := by simpa using hdirectory
  constructor
  · intro h
    have htext : c.toText? = some c.textOf := if_pos h
    have hread : ofText? c.textOf = some c := by
      rw [ofText?, textOf_eq, Toml.readDocument?_lines (isRead_of_mem_lines c h), foldlM_lines]
      exact ofMembers?_members c
    refine ⟨.text c.textOf, by rw [save, if_neg hstands, htext]; rfl, fun succeeds creates ↦ ?_⟩
    rw [load, hread]
  · intro h succeeds
    have htext : c.toText? = none := if_neg (Nat.not_lt_of_le h)
    rw [save, if_neg hstands, htext]

/-- Quotes of both kinds, a backslash, an end of a line and a control character come back, and so
does a rate of minus zero. A size of `2 ^ 63` replaces no file, and a file that stands needs no
directory. -/
theorem load_save_of_awkward_texts :
    let tax : Tax.Settings := ⟨true, .custom, -0.0, false⟩
    let c : Config := ⟨some "C:\\it's\n\"\"\"", ⟨2 ^ 63 - 1, "\u0001'''", tax⟩, "\\"⟩
    let tooLarge : Config := ⟨none, ⟨2 ^ 63, "wide", tax⟩, "info"⟩
    (∃ after, c.save .missing true = (after, .ok ()) ∧
      ∀ succeeds creates, load after succeeds creates = (after, .ok c)) ∧
    ∀ succeeds, tooLarge.save (.text ['#']) succeeds false = (.text ['#'], .error .serialize) := by
  intro tax c tooLarge
  have hsize : c.defaults.maxHistory < 2 ^ 63 := by decide
  have hlarge : 2 ^ 63 ≤ tooLarge.defaults.maxHistory := Nat.le_refl _
  have hcreated : Store.Contents.missing = .missing → true := fun _ ↦ rfl
  have hstands : Store.Contents.text ['#'] = .missing → false := by simp
  exact ⟨(load_save c .missing hcreated).1 hsize, (load_save tooLarge _ hstands).2 hlarge⟩

end DeskCalculator.Settings.Config
