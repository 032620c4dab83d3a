import DeskCalculator.Proofs.Json.Parts

/-!
# Fields of a record

A field is found under its name, wherever its member stands, and is nested in the record.
-/

namespace DeskCalculator.Json

/-- The fields of a record in which none of them stands twice. -/
theorem fields?_object {names : List String} {members : List (String × Json)}
    (h : ∀ name ∈ names, (members.map Prod.fst).count name ≤ 1) :
    fields? names (object members) = some (names.map fun name ↦ findMember? name members) := by
  have hcount : names.all fun name ↦ (members.countP fun m ↦ m.1 == name) ≤ 1 := by
    refine List.all_eq_true.mpr fun name hname ↦ decide_eq_true ?_
    have hle := h name hname
    rwa [List.count, List.countP_map] at hle
  rw [fields?, if_pos hcount]

/-- What stands under a key only once is found there. -/
theorem findMember?_of_mem {members : List (String × Json)} {m : String × Json}
    (h : (members.map Prod.fst).count m.1 ≤ 1) (hm : m ∈ members) :
    findMember? m.1 members = some m.2 := by
  induction members with
  | nil => cases hm
  | cons n members ih =>
    rw [findMember?]
    rw [List.map_cons] at h
    rcases List.mem_cons.mp hm with rfl | hm
    · rw [if_pos rfl]
    · have hpos : 0 < (members.map Prod.fst).count m.1 :=
        List.count_pos_iff.mpr (List.mem_map_of_mem hm)
      by_cases heq : n.1 = m.1
      · rw [heq, List.count_cons_self] at h
        omega
      · rw [List.count_cons_of_ne heq] at h
        rw [if_neg heq, ih h hm]

private theorem exists_mem_of_findMember? {key : String} {members : List (String × Json)} {v : Json}
    (h : findMember? key members = some v) : (key, v) ∈ members := by
  induction members with
  | nil => cases h
  | cons m members ih =>
    rw [findMember?] at h
    split at h
    · next heq =>
      cases h
      rw [← heq]
      exact List.mem_cons_self
    · exact List.mem_cons_of_mem m (ih h)

/-- A field is nested in the record. -/
theorem mem_parts_of_fields? {names : List String} {v w : Json} {fields : List (Option Json)}
    (h : v.fields? names = some fields) (hw : some w ∈ fields) : w ∈ v.parts := by
  cases v with
  | array elements =>
    rw [fields?] at h
    split at h
    · cases h
      have helement : w ∈ elements := by simpa using hw
      exact List.mem_cons_of_mem _ (mem_elementsParts_iff.mpr ⟨w, helement, w.self_mem_parts⟩)
    · cases h
  | object members =>
    rw [fields?] at h
    split at h
    · cases h
      obtain ⟨name, -, hfind⟩ := List.mem_map.mp hw
      exact List.mem_cons_of_mem _
        (mem_membersParts_iff.mpr ⟨_, exists_mem_of_findMember? hfind, w.self_mem_parts⟩)
    · cases h
  | _ => cases h

/-- A value that may be missing is read from what stands in its place. -/
theorem exists_of_orDefault?_asOptional? {α : Type} {read : Json → Option α} {a : α}
    {field : Option Json} (h : orDefault? (asOptional? read) none field = some (some a)) :
    ∃ w, field = some w ∧ read w = some a := by
  cases field with
  | none => cases h
  | some w =>
    refine ⟨w, rfl, ?_⟩
    rw [orDefault?] at h
    unfold asOptional? at h
    split at h
    · cases h
    · obtain ⟨b, hb, heq⟩ := Option.map_eq_some_iff.mp h
      cases heq
      exact hb

end DeskCalculator.Json
