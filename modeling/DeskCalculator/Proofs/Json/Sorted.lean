import DeskCalculator.Json.Decode

/-!
# Records in a store

A store puts the members of every object in the order of their keys. That changes nothing about the
fields of a record, whose keys are all different.
-/

namespace DeskCalculator.Json

/-- The keys ascend, so each stands there once. -/
def Ascending (ms : List (String × Json)) : Prop :=
  ms.Pairwise fun m n ↦ m.1 < n.1

theorem mem_insertMember {key : String} {value : Json} {ms : List (String × Json)}
    {m : String × Json} (h : m ∈ insertMember key value ms) : m = (key, value) ∨ m ∈ ms := by
  induction ms with
  | nil => exact .inl (List.mem_singleton.mp h)
  | cons n ms ih =>
    rw [insertMember] at h
    split at h
    · exact List.mem_cons.mp h
    · split at h
      · rcases List.mem_cons.mp h with h | h
        · exact .inl h
        · exact .inr (List.mem_cons_of_mem n h)
      · rcases List.mem_cons.mp h with rfl | h
        · exact .inr List.mem_cons_self
        · rcases ih h with h | h
          · exact .inl h
          · exact .inr (List.mem_cons_of_mem n h)

/-- Ascending keys stay so when a member is put among them. -/
theorem Ascending.insertMember {ms : List (String × Json)} (h : Ascending ms) (key : String)
    (value : Json) : Ascending (insertMember key value ms) := by
  induction ms with
  | nil => exact List.pairwise_singleton _ _
  | cons n ms ih =>
    obtain ⟨hn, hms⟩ := List.pairwise_cons.mp h
    rw [Json.insertMember]
    split
    · next hlt =>
      refine List.pairwise_cons.mpr ⟨fun m hm ↦ ?_, h⟩
      rcases List.mem_cons.mp hm with rfl | hm
      · exact hlt
      · exact String.lt_trans hlt (hn m hm)
    · next hlt =>
      split
      · next heq => exact List.pairwise_cons.mpr ⟨fun m hm ↦ heq ▸ hn m hm, hms⟩
      · next hne =>
        refine List.pairwise_cons.mpr ⟨fun m hm ↦ ?_, ih hms⟩
        rcases mem_insertMember hm with rfl | hm
        · apply String.not_le.mp
          intro hle
          exact hne (String.le_antisymm hle (String.not_lt.mp hlt))
        · exact hn m hm

theorem ascending_sortMembers (ms : List (String × Json)) : Ascending (sortMembers ms) := by
  have h (acc : List (String × Json)) (hacc : Ascending acc) :
      Ascending (ms.foldl (fun sorted m ↦ Json.insertMember m.1 m.2 sorted) acc) := by
    induction ms generalizing acc with
    | nil => exact hacc
    | cons m ms ih => exact ih _ (hacc.insertMember m.1 m.2)
  exact h [] .nil

/-- No key of ascending ones stands there twice. -/
private theorem Ascending.countP_le {ms : List (String × Json)} (h : Ascending ms) (name : String) :
    (ms.countP fun m ↦ m.1 == name) ≤ 1 := by
  induction ms with
  | nil => exact Nat.zero_le 1
  | cons m ms ih =>
    obtain ⟨hm, hms⟩ := List.pairwise_cons.mp h
    by_cases heq : m.1 = name
    · have hrest : (ms.countP fun n ↦ n.1 == name) = 0 := by
        rw [List.countP_eq_zero]
        intro n hn hname
        have hlt := hm n hn
        rw [heq, beq_iff_eq.mp hname] at hlt
        exact String.lt_irrefl name hlt
      rw [List.countP_cons, hrest, heq]
      simp
    · rw [List.countP_cons_of_neg (by simpa using heq)]
      exact ih hms

theorem findMember?_eq_none {key : String} {ms : List (String × Json)}
    (h : key ∉ ms.map Prod.fst) : findMember? key ms = none := by
  induction ms with
  | nil => rfl
  | cons m ms ih =>
    rw [List.map_cons, List.mem_cons, not_or] at h
    rw [findMember?, if_neg (Ne.symm h.1), ih h.2]

/-- Sorting members with different keys changes nothing that is found. -/
private theorem findMember?_sortMembers {ms : List (String × Json)} (h : (ms.map Prod.fst).Nodup)
    (key : String) : findMember? key (sortMembers ms) = findMember? key ms := by
  have hfold (acc : List (String × Json)) :
      findMember? key (ms.foldl (fun sorted m ↦ insertMember m.1 m.2 sorted) acc) =
        (findMember? key ms).or (findMember? key acc) := by
    induction ms generalizing acc with
    | nil => rfl
    | cons m ms ih =>
      obtain ⟨hm, hms⟩ := List.nodup_cons.mp h
      rw [List.foldl_cons, ih hms, findMember?]
      by_cases heq : m.1 = key
      · rw [if_pos heq, ← heq, findMember?_eq_none hm, findMember?_insertMember_self]
        rfl
      · rw [if_neg heq, findMember?_insertMember_of_ne (Ne.symm heq)]
  rw [sortMembers, hfold []]
  exact Option.or_none

private theorem map_fst_sortedValues (ms : List (String × Json)) :
    (sortedValues ms).map Prod.fst = ms.map Prod.fst := by
  induction ms with
  | nil => rfl
  | cons m ms ih => rw [sortedValues, List.map_cons, ih, List.map_cons]

private theorem findMember?_sortedValues (key : String) (ms : List (String × Json)) :
    findMember? key (sortedValues ms) = (findMember? key ms).map sorted := by
  induction ms with
  | nil => rfl
  | cons m ms ih =>
    rw [sortedValues, findMember?, findMember?]
    split
    · rfl
    · exact ih

/-- The fields of a stored record are those of the record. -/
theorem fields?_sorted {ms : List (String × Json)} (h : (ms.map Prod.fst).Nodup)
    (names : List String) :
    fields? names (object ms).sorted =
      some (names.map fun name ↦ (findMember? name ms).map sorted) := by
  have hnodup : ((sortedValues ms).map Prod.fst).Nodup := by rwa [map_fst_sortedValues]
  have hcount : names.all fun name ↦
      ((sortMembers (sortedValues ms)).countP fun m ↦ m.1 == name) ≤ 1 :=
    List.all_eq_true.mpr fun name _ ↦
      decide_eq_true ((ascending_sortMembers (sortedValues ms)).countP_le name)
  rw [sorted, fields?, if_pos hcount]
  simp only [findMember?_sortMembers hnodup, findMember?_sortedValues]

/-- What is read from a list is read from one of its elements. -/
theorem exists_of_mem_mapM {α β : Type} {f : α → Option β} {xs : List α} {ys : List β}
    (h : xs.mapM f = some ys) {y : β} (hy : y ∈ ys) : ∃ x ∈ xs, f x = some y := by
  induction xs generalizing ys with
  | nil =>
    cases h
    cases hy
  | cons x xs ih =>
    rw [List.mapM_cons] at h
    obtain ⟨z, hz, h⟩ := Option.bind_eq_some_iff.mp h
    obtain ⟨zs, hzs, h⟩ := Option.bind_eq_some_iff.mp h
    cases h
    rcases List.mem_cons.mp hy with rfl | hy
    · exact ⟨x, by simp, hz⟩
    · obtain ⟨w, hw, hread⟩ := ih hzs hy
      exact ⟨w, by simp [hw], hread⟩

end DeskCalculator.Json
