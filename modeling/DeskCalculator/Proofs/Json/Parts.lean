import DeskCalculator.Proofs.Json.Sorted

/-!
# What a value consists of

What is said of a value and of all that is nested in it is said of its `parts`. A store can hold a
value if no part is unreadable, every integer has 64 bits, and the keys of every object ascend.
Putting the keys of what is read in order makes it such a value, and changes nothing about one.
-/

namespace DeskCalculator.Json

/-- What passes from elements and members to what holds them is true of every value. -/
@[elab_as_elim]
theorem induction {P : Json → Prop} (null : P null) (bool : ∀ b, P (bool b))
    (integer : ∀ n, P (integer n)) (float : ∀ x, P (float x)) (string : ∀ s, P (string s))
    (array : ∀ elements, (∀ v ∈ elements, P v) → P (array elements))
    (object : ∀ members, (∀ m ∈ members, P m.2) → P (object members))
    (unreadable : P unreadable) (v : Json) : P v := by
  cases v with
  | null => exact null
  | bool b => exact bool b
  | integer n => exact integer n
  | float x => exact float x
  | string s => exact string s
  | array elements =>
    exact array elements fun v hv ↦
      induction null bool integer float string array object unreadable v
  | object members =>
    exact object members fun m hm ↦
      induction null bool integer float string array object unreadable m.2
  | unreadable => exact unreadable
termination_by v
decreasing_by
  · have hlt := List.sizeOf_lt_of_mem hv
    rw [Json.array.sizeOf_spec]
    omega
  · have hlt := List.sizeOf_lt_of_mem hm
    have hsnd : sizeOf m = 1 + sizeOf m.1 + sizeOf m.2 := rfl
    rw [Json.object.sizeOf_spec]
    omega

/-! ### Lists of values -/

theorem sortedElements_eq_map (elements : List Json) :
    sortedElements elements = elements.map sorted := by
  induction elements with
  | nil => rfl
  | cons v vs ih => rw [sortedElements, ih, List.map_cons]

private theorem sortedValues_eq_map (members : List (String × Json)) :
    sortedValues members = members.map fun m ↦ (m.1, m.2.sorted) := by
  induction members with
  | nil => rfl
  | cons m ms ih => rw [sortedValues, ih, List.map_cons]

private theorem elementsReadable_iff {elements : List Json} :
    elementsReadable elements ↔ ∀ v ∈ elements, v.isReadable := by
  induction elements with
  | nil => simp [elementsReadable]
  | cons v vs ih => rw [elementsReadable, Bool.and_eq_true, ih, List.forall_mem_cons]

private theorem membersReadable_iff {members : List (String × Json)} :
    membersReadable members ↔ ∀ m ∈ members, m.2.isReadable := by
  induction members with
  | nil => simp [membersReadable]
  | cons m ms ih => rw [membersReadable, Bool.and_eq_true, ih, List.forall_mem_cons]

private theorem elementsDepth_le_iff {elements : List Json} {n : Nat} :
    elementsDepth elements ≤ n ↔ ∀ v ∈ elements, v.depth ≤ n := by
  induction elements with
  | nil => simp [elementsDepth]
  | cons v vs ih => rw [elementsDepth, Nat.max_le, ih, List.forall_mem_cons]

theorem membersDepth_le_iff {members : List (String × Json)} {n : Nat} :
    membersDepth members ≤ n ↔ ∀ m ∈ members, m.2.depth ≤ n := by
  induction members with
  | nil => simp [membersDepth]
  | cons m ms ih => rw [membersDepth, Nat.max_le, ih, List.forall_mem_cons]

/-! ### Parts -/

mutual

/-- A value and all that is nested in it. -/
def parts : Json → List Json
  | array elements => array elements :: elementsParts elements
  | object members => object members :: membersParts members
  | v => [v]

/-- The parts of all elements. -/
def elementsParts : List Json → List Json
  | [] => []
  | v :: vs => parts v ++ elementsParts vs

/-- The parts of the values of all members. -/
def membersParts : List (String × Json) → List Json
  | [] => []
  | (_, v) :: ms => parts v ++ membersParts ms

end

theorem self_mem_parts (v : Json) : v ∈ v.parts := by
  cases v <;> exact List.mem_cons_self

theorem mem_elementsParts_iff {elements : List Json} {w : Json} :
    w ∈ elementsParts elements ↔ ∃ v ∈ elements, w ∈ v.parts := by
  induction elements with
  | nil => simp [elementsParts]
  | cons v vs ih => simp [elementsParts, ih]

theorem mem_membersParts_iff {members : List (String × Json)} {w : Json} :
    w ∈ membersParts members ↔ ∃ m ∈ members, w ∈ m.2.parts := by
  induction members with
  | nil => simp [membersParts]
  | cons m ms ih => simp [membersParts, ih]

/-- What holds of all parts of an array holds of it and of all parts of its elements. -/
theorem forall_parts_array_iff {P : Json → Prop} {elements : List Json} :
    (∀ w ∈ (array elements).parts, P w) ↔
      P (array elements) ∧ ∀ v ∈ elements, ∀ w ∈ v.parts, P w := by
  rw [parts, List.forall_mem_cons]
  apply and_congr_right
  intro _
  constructor
  · exact fun h v hv w hw ↦ h w (mem_elementsParts_iff.mpr ⟨v, hv, hw⟩)
  · intro h w hw
    obtain ⟨v, hv, hw⟩ := mem_elementsParts_iff.mp hw
    exact h v hv w hw

/-- What holds of all parts of an object holds of it and of all parts of its members. -/
theorem forall_parts_object_iff {P : Json → Prop} {members : List (String × Json)} :
    (∀ w ∈ (object members).parts, P w) ↔
      P (object members) ∧ ∀ m ∈ members, ∀ w ∈ m.2.parts, P w := by
  rw [parts, List.forall_mem_cons]
  apply and_congr_right
  intro _
  constructor
  · exact fun h m hm w hw ↦ h w (mem_membersParts_iff.mpr ⟨m, hm, hw⟩)
  · intro h w hw
    obtain ⟨m, hm, hw⟩ := mem_membersParts_iff.mp hw
    exact h m hm w hw

/-- A value is readable if no part of it is unreadable. -/
theorem isReadable_iff (v : Json) : v.isReadable ↔ ∀ w ∈ v.parts, w ≠ unreadable := by
  induction v using induction with
  | array elements ih =>
    rw [isReadable, elementsReadable_iff, forall_parts_array_iff]
    simp only [ne_eq, reduceCtorEq, not_false_eq_true, true_and]
    exact forall₂_congr ih
  | object members ih =>
    rw [isReadable, membersReadable_iff, forall_parts_object_iff]
    simp only [ne_eq, reduceCtorEq, not_false_eq_true, true_and]
    exact forall₂_congr ih
  | _ => simp [isReadable, parts]

/-! ### Keys in order -/

instance (ms : List (String × Json)) : Decidable (Ascending ms) :=
  inferInstanceAs (Decidable (ms.Pairwise _))

private theorem sortMembers_subset (ms : List (String × Json)) : sortMembers ms ⊆ ms := by
  have hfold (acc : List (String × Json)) :
      ms.foldl (fun sorted m ↦ insertMember m.1 m.2 sorted) acc ⊆ ms ++ acc := by
    induction ms generalizing acc with
    | nil => exact fun _ h ↦ h
    | cons n ms ih =>
      intro m hm
      rcases List.mem_append.mp (ih _ hm) with hm | hm
      · exact List.mem_append_left _ (List.mem_cons_of_mem n hm)
      · rcases mem_insertMember hm with rfl | hm
        · exact List.mem_append_left _ List.mem_cons_self
        · exact List.mem_append_right _ hm
  have hmembers := hfold []
  rwa [List.append_nil] at hmembers

/-- A member whose key is greater than all others is put at the end. -/
private theorem insertMember_of_lt {key : String} {ms : List (String × Json)}
    (h : ∀ m ∈ ms, m.1 < key)
    (value : Json) : insertMember key value ms = ms ++ [(key, value)] := by
  induction ms with
  | nil => rfl
  | cons m ms ih =>
    obtain ⟨hm, hms⟩ := List.forall_mem_cons.mp h
    have hne : key ≠ m.1 := by
      rintro rfl
      exact String.lt_irrefl _ hm
    rw [insertMember, if_neg (String.lt_asymm hm), if_neg hne, ih hms, List.cons_append]

/-- Members whose keys ascend are in order. -/
private theorem sortMembers_eq_self {ms : List (String × Json)} (h : Ascending ms) :
    sortMembers ms = ms := by
  have hfold (acc : List (String × Json)) (hacc : Ascending (acc ++ ms)) :
      ms.foldl (fun sorted m ↦ insertMember m.1 m.2 sorted) acc = acc ++ ms := by
    induction ms generalizing acc with
    | nil => exact (List.append_nil acc).symm
    | cons m ms ih =>
      have hlt : ∀ n ∈ acc, n.1 < m.1 := by
        intro n hn
        exact (List.pairwise_append.mp hacc).2.2 n hn m List.mem_cons_self
      rw [List.foldl_cons, insertMember_of_lt hlt, ih (List.Pairwise.of_cons h)]
      · simp
      · simpa using hacc
  exact hfold [] h

/-! ### Values that a store can hold -/

/-- Whether a store can hold a value, whatever is nested in it. -/
def isHeld : Json → Bool
  | unreadable => false
  | integer n => isInteger64 n
  | object members => Ascending members
  | _ => true

/-- Whether a store can hold a value and all that is nested in it. -/
def Held (v : Json) : Prop :=
  ∀ w ∈ v.parts, w.isHeld

instance (v : Json) : Decidable v.Held :=
  inferInstanceAs (Decidable (∀ w ∈ v.parts, w.isHeld))

/-- A store does not change a value that it can hold. -/
theorem Held.sorted_eq {v : Json} (h : v.Held) : v.sorted = v := by
  unfold Held at h
  induction v using induction with
  | array elements ih =>
    rw [forall_parts_array_iff] at h
    rw [sorted, sortedElements_eq_map]
    have hmap : elements.map sorted = elements.map fun v ↦ v :=
      List.map_congr_left fun v hv ↦ ih v hv (h.2 v hv)
    rw [hmap, List.map_id']
  | object members ih =>
    rw [forall_parts_object_iff] at h
    rw [sorted, sortedValues_eq_map]
    have hmap : (members.map fun m ↦ (m.1, m.2.sorted)) = members.map fun m ↦ m :=
      List.map_congr_left fun m hm ↦ by rw [ih m hm (h.2 m hm)]
    rw [hmap, List.map_id', sortMembers_eq_self (of_decide_eq_true h.1)]
  | _ => rfl

/-- A store can read what it holds. -/
theorem Held.isReadable {v : Json} (h : v.Held) : v.isReadable := by
  rw [isReadable_iff]
  rintro w hw rfl
  cases h _ hw

/-- Whether all integers of a value have 64 bits. -/
def Bounded (v : Json) : Prop :=
  ∀ w ∈ v.parts, ∀ n, w = integer n → isInteger64 n

theorem Held.bounded {v : Json} (h : v.Held) : v.Bounded := by
  rintro w hw n rfl
  exact h _ hw

/-- A readable value is one that a store can hold when its keys are in order. -/
theorem held_sorted {v : Json} (hreadable : v.isReadable) (hbounded : v.Bounded) :
    v.sorted.Held := by
  rw [isReadable_iff] at hreadable
  unfold Bounded at hbounded
  unfold Held
  induction v using induction with
  | array elements ih =>
    rw [forall_parts_array_iff] at hreadable hbounded
    rw [sorted, sortedElements_eq_map, forall_parts_array_iff]
    refine ⟨rfl, fun w hw ↦ ?_⟩
    obtain ⟨v, hv, rfl⟩ := List.mem_map.mp hw
    exact ih v hv (hreadable.2 v hv) (hbounded.2 v hv)
  | object members ih =>
    rw [forall_parts_object_iff] at hreadable hbounded
    rw [sorted, sortedValues_eq_map, forall_parts_object_iff]
    refine ⟨decide_eq_true (ascending_sortMembers _), fun m hm ↦ ?_⟩
    obtain ⟨n, hn, rfl⟩ := List.mem_map.mp (sortMembers_subset _ hm)
    exact ih n hn (hreadable.2 n hn) (hbounded.2 n hn)
  | integer n => simpa [sorted, parts, isHeld] using hbounded
  | unreadable => simp [parts] at hreadable
  | _ => simp [sorted, parts, isHeld]

/-- Putting keys in order does not nest a value deeper. -/
theorem depth_sorted_le (v : Json) : v.sorted.depth ≤ v.depth := by
  induction v using induction with
  | array elements ih =>
    rw [sorted, depth, depth, sortedElements_eq_map]
    apply Nat.succ_le_succ
    rw [elementsDepth_le_iff]
    intro w hw
    obtain ⟨v, hv, rfl⟩ := List.mem_map.mp hw
    exact Nat.le_trans (ih v hv) (elementsDepth_le_iff.mp (Nat.le_refl _) v hv)
  | object members ih =>
    rw [sorted, depth, depth, sortedValues_eq_map]
    apply Nat.succ_le_succ
    rw [membersDepth_le_iff]
    intro m hm
    obtain ⟨n, hn, rfl⟩ := List.mem_map.mp (sortMembers_subset _ hm)
    exact Nat.le_trans (ih n hn) (membersDepth_le_iff.mp (Nat.le_refl _) n hn)
  | _ => exact Nat.le_refl _

/-- The doubles in a value. -/
def doubles (v : Json) : List Float :=
  v.parts.filterMap fun
    | float x => some x
    | _ => none

/-- What holds of the doubles of a value, said of its parts. -/
theorem forall_doubles_iff {P : Float → Prop} {v : Json} :
    (∀ x ∈ v.doubles, P x) ↔ ∀ w ∈ v.parts, ∀ x, w = float x → P x := by
  rw [doubles]
  constructor
  · rintro h w hw x rfl
    exact h x (List.mem_filterMap.mpr ⟨_, hw, rfl⟩)
  · intro h x hx
    obtain ⟨w, hw, hxw⟩ := List.mem_filterMap.mp hx
    split at hxw
    · cases hxw
      exact h _ hw x rfl
    · cases hxw

end DeskCalculator.Json
