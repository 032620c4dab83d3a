import DeskCalculator.Proofs.Json.Fields
import DeskCalculator.Proofs.Json.Finite
import DeskCalculator.Proofs.Json.Reading
import DeskCalculator.Proofs.Store.RoundTrip

/-!
# Items as texts

An item is written in one way and read from many: its fields may stand in any order, among unknown
ones, or without names in the order of an array, and those that may be missing may be. Whatever text
an item was read from, the text that is written for it is read as the same item
(`Item.text_round_trip`).
-/

namespace DeskCalculator.History.Item

/-! ### Items that are read -/

/-- A rate is read from a number that is nested in the item. -/
private theorem exists_taxRate_of_ofJson? {v : Json} {i : Item} (h : ofJson? v = some i) {x : Float}
    (hx : i.taxRate = some x) : ∃ w ∈ v.parts, Json.asFloat? w = some x := by
  obtain ⟨fields, hfields, h⟩ := Option.bind_eq_some_iff.mp h
  split at h
  · simp only [Option.bind_eq_bind, Option.bind_eq_some_iff] at h
    obtain ⟨_, _, _, _, _, _, _, _, _, _, rate, hfield, _, _, _, _, _, _, _, _, h⟩ := h
    cases h
    dsimp only at hx
    rw [hx] at hfield
    obtain ⟨w, rfl, hw⟩ := Json.exists_of_orDefault?_asOptional? hfield
    exact ⟨w, Json.mem_parts_of_fields? hfields (by simp), hw⟩
  · cases h

/-- An item that is read loses nothing when it is written. -/
private theorem storable_of_read? {cs : List Char} {v : Json} {i : Item}
    (hv : Json.read? cs = some v) (h : ofJson? v = some i) : i.Storable where
  id := hasId_of_ofJson? h
  rate x hx := by
    obtain ⟨w, hw, hread⟩ := exists_taxRate_of_ofJson? h hx
    exact Json.isFinite_of_asFloat? (Json.bounded_of_read? hv) (Json.isFinite_of_mem_doubles hv) hw
      hread

/-! ### Items that are written -/

section

variable {i : Item}

/-- The members of the object that an item is written as. -/
def members (i : Item) : List (String × Json) :=
  match i.toJson with
  | .object members => members
  | _ => []

private theorem map_fst_members (i : Item) : i.members.map Prod.fst = fieldNames := rfl

/-- What is true of objects, strings, null and the two numbers of an item is true of all that is
written. -/
theorem allParts_toJson {P : Json → Prop} (hobject : ∀ members, P (.object members))
    (hstring : ∀ s, P (.string s)) (hnull : P .null) (hid : P (.integer i.id))
    (hrate : ∀ x, i.taxRate = some x → x.isFinite → P (.float x)) : i.toJson.AllParts P := by
  have hleaf {v : Json} (hparts : v.parts = [v]) (hv : P v) : ∀ w ∈ v.parts, P w := by
    rw [hparts]
    exact List.forall_mem_singleton.mpr hv
  have htext (o : Option String) : ∀ w ∈ (Json.ofOption .string o).parts, P w := by
    cases o with
    | none => exact hleaf rfl hnull
    | some s => exact hleaf rfl (hstring s)
  have hmode : ∀ w ∈ (Json.ofOption Tax.Mode.toJson i.taxMode).parts, P w := by
    cases i.taxMode with
    | none => exact hleaf rfl hnull
    | some m => exact hleaf rfl (hstring m.name)
  have hfloat : ∀ w ∈ (Json.ofOption .ofFloat i.taxRate).parts, P w := by
    cases hx : i.taxRate with
    | none => exact hleaf rfl hnull
    | some x =>
      rw [Json.ofOption, Json.ofFloat]
      split
      · next hfinite => exact hleaf rfl (hrate x hx hfinite)
      · exact hleaf rfl hnull
  refine Json.forall_parts_object_iff.mpr ⟨hobject _, ?_⟩
  simp only [List.forall_mem_cons]
  exact ⟨hleaf rfl hid, hleaf rfl (hstring _), hleaf rfl (hstring _), htext _, hmode, hfloat,
    htext _, hleaf rfl (hstring _), hleaf rfl (hstring _), hleaf rfl (hstring _),
    List.forall_mem_nil _⟩

/-- The text of an item is read as what was written. -/
private theorem read?_compact_toJson (hid : i.HasId)
    (hrate : ∀ x, i.taxRate = some x → x.isFinite → Json.readsBack x) :
    Json.read? (Json.compact i.toJson) = some i.toJson := by
  refine Json.read?_compact ?_ ?_ ?_
  · rw [Json.isReadable_iff]
    exact allParts_toJson (by simp) (by simp) (by simp) (by simp) (by simp)
  · refine allParts_toJson (by simp) (by simp) (by simp) ?_ (by simp)
    rintro n ⟨⟩
    exact hid.isInteger64
  · rw [Json.forall_doubles_iff]
    refine allParts_toJson (by simp) (by simp) (by simp) (by simp) ?_
    rintro x hx hfinite y ⟨⟩
    exact hrate x hx hfinite

/-! ### The forms of an item -/

/-- Whether a member may be missing: it is null, or it is empty notes. -/
def MayBeMissing (m : String × Json) : Prop :=
  m.2 = .null ∨ m = ("notes", .string "")

/-- Whether a value is an item in one of its forms: an object in which its members stand in any
order and among others, or the array of their values. -/
inductive FormOf (i : Item) : Json → Prop
  | object {ms : List (String × Json)}
      (hunique : ∀ name ∈ fieldNames, (ms.map Prod.fst).count name ≤ 1)
      (hms : ∀ m ∈ i.members, m ∈ ms ∨ m.1 ∉ ms.map Prod.fst ∧ MayBeMissing m) :
      FormOf i (.object ms)
  | array : FormOf i (.array (i.members.map Prod.snd))
  | arrayWithoutNotes (hempty : i.notes = "") :
      FormOf i (.array (i.members.map Prod.snd).dropLast)

/-- Whether what stands under the key of a member is the member, or nothing where it may be
missing. -/
def StandsIn (ms : List (String × Json)) (m : String × Json) : Prop :=
  Json.findMember? m.1 ms = some m.2 ∨ Json.findMember? m.1 ms = none ∧ MayBeMissing m

section

variable {ms : List (String × Json)}

private theorem StandsIn.of_not_mayBeMissing {m : String × Json} (h : StandsIn ms m)
    (hm : ¬ MayBeMissing m) : Json.findMember? m.1 ms = some m.2 :=
  h.resolve_right fun hmissing ↦ hm hmissing.2

private theorem StandsIn.standsForOption {α : Type} {f : α → Json} {o : Option α} {name : String}
    (h : StandsIn ms (name, Json.ofOption f o)) (hname : name ≠ "notes")
    (hf : ∀ a, o = some a → f a ≠ .null) :
    Json.StandsForOption f o (Json.findMember? name ms) := by
  rcases h with hfound | ⟨hmissing, hnull | hnotes⟩
  · exact .inl hfound
  · cases o with
    | none => exact .inr ⟨rfl, hmissing⟩
    | some a => exact absurd hnull (hf a rfl)
  · exact absurd (congrArg Prod.fst hnotes) hname

/-- An item is read from members among which its own stand. -/
private theorem ofJson?_object (h : i.Storable)
    (hunique : ∀ name ∈ fieldNames, (ms.map Prod.fst).count name ≤ 1)
    (hms : ∀ m ∈ i.members, StandsIn ms m) : ofJson? (.object ms) = some i := by
  simp only [members, toJson, List.forall_mem_cons] at hms
  obtain ⟨hid, hexpression, hresult, htaxResult, htaxMode, htaxRate, htaxLabel, hdate, htime,
    hnotes, -⟩ := hms
  have hfields : (Json.object ms).fields? fieldNames =
      some [some (.integer i.id), some (.string i.expression), some (.string i.result),
        Json.findMember? "taxResult" ms, Json.findMember? "taxMode" ms,
        Json.findMember? "taxRate" ms, Json.findMember? "taxLabel" ms, some (.string i.date),
        some (.string i.time), Json.findMember? "notes" ms] := by
    rw [Json.fields?_object hunique, fieldNames]
    simp only [List.map_cons, List.map_nil, hid.of_not_mayBeMissing (by simp [MayBeMissing]),
      hexpression.of_not_mayBeMissing (by simp [MayBeMissing]),
      hresult.of_not_mayBeMissing (by simp [MayBeMissing]),
      hdate.of_not_mayBeMissing (by simp [MayBeMissing]),
      htime.of_not_mayBeMissing (by simp [MayBeMissing])]
  apply ofJson?_of_fields h hfields
  exact {
    taxResult := htaxResult.standsForOption (by decide) (by simp)
    taxMode := htaxMode.standsForOption (by decide) (by simp [Tax.Mode.toJson])
    taxRate := htaxRate.standsForOption (by decide) fun x hx ↦ by simp [Json.ofFloat, h.rate x hx]
    taxLabel := htaxLabel.standsForOption (by decide) (by simp)
    notes := hnotes.imp_right fun hmissing ↦
      ⟨by simpa [MayBeMissing] using hmissing.2, hmissing.1⟩ }

end

/-- An item is read from each of its forms. -/
theorem ofJson?_of_formOf (h : i.Storable) {v : Json} (hv : i.FormOf v) : ofJson? v = some i := by
  cases hv with
  | object hunique hms =>
    refine ofJson?_object h hunique fun m hm ↦ ?_
    rcases hms m hm with hmem | ⟨hmissing, hdefault⟩
    · have hname : m.1 ∈ fieldNames := i.map_fst_members ▸ List.mem_map_of_mem hm
      exact .inl (Json.findMember?_of_mem (hunique _ hname) hmem)
    · exact .inr ⟨Json.findMember?_eq_none hmissing, hdefault⟩
  | array => exact ofJson?_of_fields h rfl i.standsFor_self
  | arrayWithoutNotes hempty =>
    exact ofJson?_of_fields h rfl { i.standsFor_self with notes := .inr ⟨hempty, rfl⟩ }

/-- What is written is a form of the item. -/
private theorem formOf_toJson (i : Item) : i.FormOf i.toJson :=
  have hnodup : (i.members.map Prod.fst).Nodup := by
    rw [map_fst_members]
    decide
  .object (fun name _ ↦ List.nodup_iff_count_le_one.mp hnodup name) fun _ hm ↦ .inl hm

end

/-! ### Texts -/

/-- The item that a text stands for. -/
def ofText? (cs : List Char) : Option Item :=
  (Json.read? cs).bind ofJson?

/-- The text of an item. -/
def text (i : Item) : List Char :=
  Json.compact i.toJson

/-- An item that loses nothing when it is written is read from its text, and from every text of one
of its forms. Whatever text an item was read from, it is read from its own text as well, for which
that text is written again. All that is assumed is that a finite rate is read from its digits. -/
theorem text_round_trip (i : Item)
    (hrate : ∀ x, i.taxRate = some x → x.isFinite → Json.readsBack x) :
    (i.Storable → ofText? i.text = some i ∧
      ∀ cs v, Json.read? cs = some v → i.FormOf v → ofText? cs = some i) ∧
    ∀ cs, ofText? cs = some i →
      ofText? i.text = some i ∧ (ofText? i.text).map text = some i.text := by
  have hself (h : i.Storable) : ofText? i.text = some i := by
    rw [ofText?, text, read?_compact_toJson h.id hrate, Option.bind_some,
      ofJson?_of_formOf h i.formOf_toJson]
  refine ⟨fun h ↦ ⟨hself h, fun cs v hv hform ↦ ?_⟩, fun cs hcs ↦ ?_⟩
  · rw [ofText?, hv, Option.bind_some, ofJson?_of_formOf h hform]
  · obtain ⟨v, hv, hi⟩ := Option.bind_eq_some_iff.mp hcs
    have hstorable := storable_of_read? hv hi
    exact ⟨hself hstorable, by rw [hself hstorable, Option.map_some]⟩

/-- The fields stand in another order, one is unknown, some are missing, letters are escaped and the
rate has an exponent. -/
theorem text_round_trip_of_shuffled_fields :
    let i : Item :=
      { id := -7, expression := "8 ÷ 3 → \"π\"", result := "2.6666666667", taxResult := none,
        taxMode := some .custom, taxRate := some (Number.ofDecimal false 125 (-1)),
        taxLabel := none, date := "2024-01-31", time := "23:59:59", notes := "" }
    let cs := ("\x7b\"color\":[1,null],\"time\":\"23:59:59\",\"taxRate\":1.25e1," ++
      "\"taxMode\":\"custom\",\"result\":\"2.6666666667\",\"date\":\"2024-01-31\"," ++
      "\"expression\":\"8 \\u00f7 3 \\u2192 \\\"π\\\"\",\"id\":-7\x7d").toList
    (∀ x, i.taxRate = some x → x.isFinite → Json.readsBack x) ∧ i.Storable ∧
      ofText? cs = some i ∧ ofText? i.text = some i ∧ (ofText? i.text).map text = some i.text := by
  intro i cs
  have hfinite : (Number.ofDecimal false 125 (-1)).isFinite := by decide +kernel
  have hreads : Json.readsBack (Number.ofDecimal false 125 (-1)) := by decide +kernel
  have hrate : ∀ x, i.taxRate = some x → x.isFinite → Json.readsBack x :=
    fun x hx _ ↦ Option.some.inj hx ▸ hreads
  have hread : ofText? cs = some i := by decide +kernel
  have hstorable : i.Storable :=
    ⟨⟨by decide, by decide⟩, fun x hx ↦ Option.some.inj hx ▸ hfinite⟩
  exact ⟨hrate, hstorable, hread, (text_round_trip i hrate).2 cs hread⟩

end DeskCalculator.History.Item
