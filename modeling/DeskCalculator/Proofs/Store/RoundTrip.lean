import DeskCalculator.Proofs.Json.Sorted
import DeskCalculator.Store.Backing

/-!
# Reading back what is stored

Every value that a session stores is read back as it was: the recorded calculations, the history
bound, the tax settings and the button layout. Rates must be finite, and ids and sizes integers of
64 bits.
-/

namespace DeskCalculator

namespace Json

/-- A value that may be missing is read back. -/
private theorem asOptional?_ofOption {α : Type} {f : α → Json} {read : Json → Option α}
    {o : Option α} (h : ∀ a, o = some a → f a ≠ .null ∧ read (f a) = some a) :
    asOptional? read (ofOption f o) = some o := by
  cases o with
  | none => rfl
  | some a =>
    obtain ⟨hnull, hread⟩ := h a rfl
    rw [ofOption]
    unfold asOptional?
    split
    · next heq => exact absurd heq hnull
    · rw [hread]
      rfl

/-- Whether a field stands for a value that may be missing: it is the value, or is missing too. -/
def StandsForOption {α : Type} (f : α → Json) (o : Option α) (field : Option Json) : Prop :=
  field = some (ofOption f o) ∨ o = none ∧ field = none

/-- A field that may be missing is read back. -/
theorem orDefault?_asOptional? {α : Type} {f : α → Json} {read : Json → Option α} {o : Option α}
    {field : Option Json} (hfield : StandsForOption f o field)
    (h : ∀ a, o = some a → f a ≠ .null ∧ read (f a) = some a) :
    orDefault? (asOptional? read) none field = some o := by
  rcases hfield with rfl | ⟨rfl, rfl⟩
  · exact asOptional?_ofOption h
  · rfl

/-- A value that may be missing is stored as it is if it holds no records. -/
theorem sorted_ofOption {α : Type} {f : α → Json} (h : ∀ a, (f a).sorted = f a) (o : Option α) :
    (ofOption f o).sorted = ofOption f o := by
  cases o with
  | none => rfl
  | some a => exact h a

private theorem sorted_ofFloat (x : Float) : (ofFloat x).sorted = ofFloat x := by
  unfold ofFloat
  split
  · rfl
  · rfl

end Json

namespace Tax

/-- A mode is read back. -/
theorem Mode.ofJson?_toJson (m : Mode) : Mode.ofJson? m.toJson = some m :=
  ofName?_name m

/-- Tax settings with a finite rate are read back. -/
theorem Settings.ofJson?_sorted_toJson {s : Settings} (h : s.rate.isFinite) :
    Settings.ofJson? s.toJson.sorted = some s := by
  have hfields : s.toJson.sorted.fields? fieldNames =
      some [some (.bool s.isEnabled), some s.mode.toJson, some (.float s.rate),
        some (.bool s.showPerNumber)] := by
    rw [toJson, Json.fields?_sorted (by simp), Json.ofFloat, if_pos h]
    rfl
  rw [ofJson?, hfields]
  simp [Json.orDefault?, Json.asBool?, Json.asFloat?, Mode.ofJson?_toJson]

/-- Tax settings with a rate that is not finite are not read back at all. -/
theorem Settings.ofJson?_sorted_toJson_eq_none {s : Settings} (h : ¬ s.rate.isFinite) :
    Settings.ofJson? s.toJson.sorted = none := by
  have hfields : s.toJson.sorted.fields? fieldNames =
      some [some (.bool s.isEnabled), some s.mode.toJson, some .null,
        some (.bool s.showPerNumber)] := by
    rw [toJson, Json.fields?_sorted (by simp), Json.ofFloat, if_neg h]
    rfl
  rw [ofJson?, hfields]
  simp [Json.orDefault?, Json.asBool?, Json.asFloat?, Mode.ofJson?_toJson]

end Tax

namespace History

/-- The id of an item is an integer of 64 bits. -/
def Item.HasId (i : Item) : Prop :=
  -2 ^ 63 ≤ i.id ∧ i.id < 2 ^ 63

theorem Item.HasId.isInteger64 {i : Item} (h : i.HasId) : Json.isInteger64 i.id := by
  unfold Item.HasId at h
  rw [Json.isInteger64, Bool.and_eq_true, decide_eq_true_iff, decide_eq_true_iff]
  omega

/-- An item that loses nothing when it is stored. -/
structure Item.Storable (i : Item) : Prop where
  id : i.HasId
  rate : ∀ x, i.taxRate = some x → x.isFinite

/-- Whether fields stand for an item. Fields about tax may be missing where there is none, and notes
where they are empty. -/
structure Item.StandsFor (i : Item) (taxResult taxMode taxRate taxLabel notes : Option Json) :
    Prop where
  taxResult : Json.StandsForOption .string i.taxResult taxResult
  taxMode : Json.StandsForOption Tax.Mode.toJson i.taxMode taxMode
  taxRate : Json.StandsForOption .ofFloat i.taxRate taxRate
  taxLabel : Json.StandsForOption .string i.taxLabel taxLabel
  notes : notes = some (.string i.notes) ∨ i.notes = "" ∧ notes = none

/-- An item is read from fields that stand for it. -/
theorem Item.ofJson?_of_fields {i : Item} (h : i.Storable) {v : Json}
    {taxResult taxMode taxRate taxLabel notes : Option Json}
    (hfields : v.fields? fieldNames =
      some [some (.integer i.id), some (.string i.expression), some (.string i.result), taxResult,
        taxMode, taxRate, taxLabel, some (.string i.date), some (.string i.time), notes])
    (hstands : i.StandsFor taxResult taxMode taxRate taxLabel notes) :
    Item.ofJson? v = some i := by
  have htext {o : Option String} {field : Option Json}
      (hfield : Json.StandsForOption .string o field) :
      Json.orDefault? (Json.asOptional? Json.asString?) none field = some o :=
    Json.orDefault?_asOptional? hfield fun _ _ ↦ ⟨by simp, rfl⟩
  have hmode : Json.orDefault? (Json.asOptional? Tax.Mode.ofJson?) none taxMode =
      some i.taxMode :=
    Json.orDefault?_asOptional? hstands.taxMode fun m _ ↦
      ⟨by simp [Tax.Mode.toJson], m.ofJson?_toJson⟩
  have hrate : Json.orDefault? (Json.asOptional? Json.asFloat?) none taxRate =
      some i.taxRate := by
    apply Json.orDefault?_asOptional? hstands.taxRate
    intro x hx
    rw [Json.ofFloat, if_pos (h.rate x hx)]
    exact ⟨by simp, rfl⟩
  have hnotes : Json.orDefault? Json.asString? "" notes = some i.notes := by
    rcases hstands.notes with rfl | ⟨hempty, rfl⟩
    · rfl
    · rw [hempty]
      rfl
  have hid : Json.asSigned? (.integer i.id) = some i.id := if_pos h.id
  rw [ofJson?, hfields]
  simp [Json.required?, Json.asString?, htext hstands.taxResult, htext hstands.taxLabel, hmode,
    hrate, hnotes, hid]

/-- What is written stands for an item. -/
theorem Item.standsFor_self (i : Item) :
    i.StandsFor (some (.ofOption .string i.taxResult)) (some (.ofOption Tax.Mode.toJson i.taxMode))
      (some (.ofOption .ofFloat i.taxRate)) (some (.ofOption .string i.taxLabel))
      (some (.string i.notes)) where
  taxResult := .inl rfl
  taxMode := .inl rfl
  taxRate := .inl rfl
  taxLabel := .inl rfl
  notes := .inl rfl

/-- An item is read back from a store. -/
theorem Item.ofJson?_sorted_toJson {i : Item} (h : i.Storable) :
    Item.ofJson? i.toJson.sorted = some i := by
  have htext (o : Option String) : (Json.ofOption .string o).sorted = .ofOption .string o :=
    Json.sorted_ofOption (fun _ ↦ rfl) o
  have hmode : (Json.ofOption Tax.Mode.toJson i.taxMode).sorted =
      .ofOption Tax.Mode.toJson i.taxMode :=
    Json.sorted_ofOption (fun _ ↦ rfl) i.taxMode
  have hrate : (Json.ofOption .ofFloat i.taxRate).sorted = .ofOption .ofFloat i.taxRate :=
    Json.sorted_ofOption Json.sorted_ofFloat i.taxRate
  apply Item.ofJson?_of_fields h ?_ i.standsFor_self
  rw [toJson, Json.fields?_sorted (by simp)]
  simp [fieldNames, Json.findMember?, Json.sorted, htext, hmode, hrate]

/-- An item as it is read back: a rate that is not finite is lost. -/
def Item.stored (i : Item) : Item :=
  { i with taxRate := i.taxRate.filter Float.isFinite }

/-- What is lost is not written. -/
private theorem Item.toJson_stored (i : Item) : i.stored.toJson = i.toJson := by
  have hrate : Json.ofOption Json.ofFloat (i.taxRate.filter Float.isFinite) =
      Json.ofOption Json.ofFloat i.taxRate := by
    cases i.taxRate with
    | none => rfl
    | some x =>
      rw [Option.filter_some]
      by_cases hx : x.isFinite
      · rw [if_pos hx]
      · rw [if_neg hx, Json.ofOption, Json.ofOption, Json.ofFloat, if_neg hx]
  rw [toJson, toJson, stored, hrate]

theorem Item.HasId.storable {i : Item} (h : i.HasId) : i.stored.Storable where
  id := h
  rate _ hx := (Option.filter_eq_some_iff.mp hx).2

/-- Ids that are read are integers of 64 bits. -/
theorem Item.hasId_of_ofJson? {v : Json} {i : Item} (h : Item.ofJson? v = some i) : i.HasId := by
  have hsigned {field : Option Json} {id : Int}
      (hid : Json.required? Json.asSigned? field = some id) : -2 ^ 63 ≤ id ∧ id < 2 ^ 63 := by
    obtain ⟨w, -, hw⟩ := Option.bind_eq_some_iff.mp hid
    unfold Json.asSigned? at hw
    split at hw
    · split at hw
      · next hrange =>
        cases hw
        exact hrange
      · cases hw
    · cases hw
  obtain ⟨fields, -, h⟩ := Option.bind_eq_some_iff.mp h
  split at h
  · obtain ⟨id, hid, h⟩ := Option.bind_eq_some_iff.mp h
    simp only [Option.bind_eq_bind, Option.bind_eq_some_iff] at h
    obtain ⟨_, _, _, _, _, _, _, _, _, _, _, _, _, _, _, _, _, _, h⟩ := h
    cases h
    exact hsigned hid
  · cases h

end History

namespace Store

/-- Items are read back. -/
theorem asList?_sorted_itemsJson {items : List History.Item} (h : ∀ i ∈ items, i.Storable) :
    Json.asList? History.Item.ofJson? (itemsJson items).sorted = some items := by
  have helements : (Json.sortedElements (items.map History.Item.toJson)).mapM
      History.Item.ofJson? = some items := by
    induction items with
    | nil => rfl
    | cons i items ih =>
      have hi := History.Item.ofJson?_sorted_toJson (h i (by simp))
      have hitems := ih fun j hj ↦ h j (by simp [hj])
      rw [List.map_cons, Json.sortedElements, List.mapM_cons, hi, hitems]
      rfl
  exact helements

/-- Items are read back without the rates that are not finite. -/
theorem asList?_sorted_itemsJson_stored {items : List History.Item} (h : ∀ i ∈ items, i.HasId) :
    Json.asList? History.Item.ofJson? (itemsJson items).sorted =
      some (items.map History.Item.stored) := by
  have hjson : itemsJson items = itemsJson (items.map History.Item.stored) := by
    simp [itemsJson, History.Item.toJson_stored]
  rw [hjson]
  apply asList?_sorted_itemsJson
  intro i hi
  obtain ⟨j, hj, rfl⟩ := List.mem_map.mp hi
  exact (h j hj).storable

/-- A size of 64 bits is read back. -/
theorem asSize?_sorted_sizeJson {n : Nat} (h : n < 2 ^ 64) :
    Json.asSize? (sizeJson n).sorted = some n := by
  have hrange : (0 : Int) ≤ n ∧ (n : Int) < 2 ^ 64 := by omega
  rw [sizeJson, Json.sorted, Json.asSize?, if_pos hrange, Int.toNat_natCast]

/-! ### Typed values -/

/-- What has been stored under a key is read there. -/
theorem loadOr_put_self {α : Type} {entries : Entries} {key : String} {value : Json}
    {read : Json → Option α} {a : α} (h : read value.sorted = some a) (default : α) :
    loadOr (put entries (write key value)) key read default = a := by
  have hget : get? (put entries (write key value)) key = some value.sorted :=
    get?_put_self entries (write key value)
  rw [loadOr, hget, Option.bind_some, h, Option.getD_some]

/-- What is read under another key stays. -/
theorem loadOr_put_of_ne {α : Type} {key other : String} (h : other ≠ key) (entries : Entries)
    (value : Json) (read : Json → Option α) (default : α) :
    loadOr (put entries (write key value)) other read default =
      loadOr entries other read default := by
  rw [loadOr, get?_put_of_ne h, loadOr]

/-- Where what has been stored cannot be read, the default stands for it. -/
theorem loadOr_put_unreadable {α : Type} {entries : Entries} {key : String} {value : Json}
    {read : Json → Option α} (h : read value.sorted = none) (default : α) :
    loadOr (put entries (write key value)) key read default = default := by
  have hget : get? (put entries (write key value)) key = some value.sorted :=
    get?_put_self entries (write key value)
  rw [loadOr, hget, Option.bind_some, h, Option.getD_none]

/-- What is read under a key stays when nothing is written under it. -/
theorem loadOr_foldl_put_of_ne {α : Type} {key : String} {writes : List Write}
    (h : ∀ w ∈ writes, w.1 ≠ key) (entries : Entries) (read : Json → Option α) (default : α) :
    loadOr (writes.foldl put entries) key read default = loadOr entries key read default := by
  induction writes generalizing entries with
  | nil => rfl
  | cons w writes ih =>
    obtain ⟨hw, hwrites⟩ := List.forall_mem_cons.mp h
    rw [List.foldl_cons, ih hwrites, loadOr, get?_put_of_ne hw.symm, loadOr]

/-- The recorded calculations that are read from what is stored. -/
def recorded (entries : Entries) : List History.Item :=
  loadOr entries historyKey (Json.asList? History.Item.ofJson?) []

theorem hasId_of_mem_recorded {entries : Entries} {i : History.Item} (h : i ∈ recorded entries) :
    i.HasId := by
  unfold recorded loadOr at h
  cases hread : (get? entries historyKey).bind (Json.asList? History.Item.ofJson?) with
  | none =>
    rw [hread] at h
    cases h
  | some items =>
    rw [hread, Option.getD_some] at h
    obtain ⟨v, -, hv⟩ := Option.bind_eq_some_iff.mp hread
    unfold Json.asList? at hv
    split at hv
    · obtain ⟨w, -, hw⟩ := Json.exists_of_mem_mapM hv h
      exact History.Item.hasId_of_ofJson? hw
    · cases hv

/-- A store that keeps every value whose writing succeeds. -/
class Keeps (σ : Type) [Backing σ] : Prop where
  entries_set (store : σ) (w : Write) :
    Backing.entries (Backing.set store w true).1 = put (Backing.entries store) w

instance : Keeps Memory where
  entries_set _ _ := rfl

instance : Keeps File where
  entries_set _ _ := rfl

end Store

end DeskCalculator
