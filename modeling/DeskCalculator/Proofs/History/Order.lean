import DeskCalculator.History.Ledger
import Mathlib.Data.List.Induction
import Mathlib.Data.List.Nodup

/-!
# The order of a ledger

A ledger that is filled by its own ids has them in order: they fall from the newest item to the
oldest, whatever the clock shows. So what falls off at the old end is older than what stays, and an
id names one item. The ids of a whole run need not rise, though. A ledger knows only the items that
it still has, so an id can come again once the newest item is removed.
-/

namespace DeskCalculator.History.Ledger

/-- The greatest integer of 64 bits with a sign. An item of this id has no next one. -/
def greatestId : Int := 2 ^ 63 - 1

/-! ### Runs -/

/-- What can be done to a ledger. -/
inductive Change where
  /-- Records an item, whatever its id is, under the next id at a reading of the clock. -/
  | record (now : Int) (item : Item)
  | setBound (n : Nat)
  | remove (id : Int)
  | setNote (id : Int) (note : String)
  | clear

/-- Whether the clock shows an integer of 64 bits. -/
def Change.isInRange : Change → Bool
  | .record now _ => -2 ^ 63 ≤ now && now < 2 ^ 63
  | _ => true

/-- An item under the next id. -/
def stamp (l : Ledger) (now : Int) (item : Item) : Item :=
  { item with id := l.nextId now }

/-- The ledger after a change. -/
def apply (l : Ledger) : Change → Ledger
  | .record now item => (l.push (l.stamp now item)).1
  | .setBound n => (l.setBound n).1
  | .remove id => (l.remove id).1
  | .setNote id note => (l.setNote id note).1
  | .clear => l.clear

/-- The ids that a change gives out. -/
def issuedBy (l : Ledger) : Change → List Int
  | .record now _ => [l.nextId now]
  | _ => []

/-- The ledger after some changes. -/
def run (l : Ledger) (changes : List Change) : Ledger :=
  changes.foldl apply l

/-- The ids that some changes give out, the first one first. -/
def issued (l : Ledger) : List Change → List Int
  | [] => []
  | c :: changes => l.issuedBy c ++ (l.apply c).issued changes

private theorem issued_append (l : Ledger) (earlier later : List Change) :
    l.issued (earlier ++ later) = l.issued earlier ++ (l.run earlier).issued later := by
  induction earlier generalizing l with
  | nil => rfl
  | cons c earlier ih =>
    rw [List.cons_append, issued, issued, ih, List.append_assoc]
    rfl

/-! ### The order of the ids -/

/-- The ids fall from the newest item to the oldest, and after each of them there is a next one. -/
structure Ordered (l : Ledger) : Prop where
  falling : l.items.Pairwise fun i j ↦ j.id < i.id
  below : ∀ i ∈ l.items, i.id < greatestId

/-- The next id exceeds exactly what is below the reading or not above all recorded ids. -/
theorem lt_nextId_iff {l : Ledger} (h : ∀ i ∈ l.items, i.id < greatestId) {now : Int}
    (hnow : -2 ^ 63 ≤ now) (id : Int) :
    id < l.nextId now ↔ id < now ∨ ∃ i ∈ l.items, id ≤ i.id := by
  unfold nextId
  cases hmax : l.maxId? with
  | none =>
    have hitems : l.items = [] := by simpa [maxId?] using hmax
    simp [hitems]
  | some newest =>
    obtain ⟨hmem, hle⟩ := List.max?_eq_some_iff.mp hmax
    obtain ⟨i, hi, rfl⟩ := List.mem_map.mp hmem
    have hbelow := h i hi
    have hexists : (∃ j ∈ l.items, id ≤ j.id) ↔ id ≤ i.id := by
      constructor
      · rintro ⟨j, hj, hid⟩
        exact Int.le_trans hid (hle j.id (List.mem_map_of_mem hj))
      · exact fun hid ↦ ⟨i, hi, hid⟩
    rw [hexists]
    dsimp only
    split
    · next hreading =>
      have hnext : (i.id + 1).bmod (2 ^ 64) = i.id + 1 := by
        unfold greatestId at hbelow
        apply Int.bmod_eq_of_le <;> omega
      rw [hnext]
      omega
    · omega

/-- A next id is no earlier than the reading and above all recorded ids. -/
theorem nextId_bounds {l : Ledger} (h : ∀ i ∈ l.items, i.id < greatestId) {now : Int}
    (hnow : -2 ^ 63 ≤ now) : now ≤ l.nextId now ∧ ∀ i ∈ l.items, i.id < l.nextId now := by
  constructor
  · have hlt : now - 1 < l.nextId now := (lt_nextId_iff h hnow (now - 1)).mpr (.inl (by omega))
    omega
  · intro i hi
    exact (lt_nextId_iff h hnow i.id).mpr (.inr ⟨i, hi, Int.le_refl i.id⟩)

/-- A changed note leaves the ids as they are. -/
theorem map_id_noteItem (id : Int) (note : String) (items : List Item) :
    (noteItem id note items).map Item.id = items.map Item.id := by
  induction items with
  | nil => rfl
  | cons i items ih =>
    rw [noteItem]
    split
    · rfl
    · rw [List.map_cons, ih, List.map_cons]

namespace Ordered

variable {l : Ledger}

/-- Only the ids matter, and some of them may be missing. -/
theorem of_sublist (h : l.Ordered) {m : Ledger}
    (hids : (m.items.map Item.id).Sublist (l.items.map Item.id)) : m.Ordered where
  falling := by
    have hfalling : (l.items.map Item.id).Pairwise fun a b ↦ b < a :=
      List.pairwise_map.mpr h.falling
    exact List.pairwise_map.mp (hfalling.sublist hids)
  below i hi := by
    obtain ⟨j, hj, hid⟩ := List.mem_map.mp (hids.subset (List.mem_map_of_mem hi))
    exact hid ▸ h.below j hj

/-- The items that a ledger begins with. -/
theorem ofItems {items : List Item} (hfalling : items.Pairwise fun i j ↦ j.id < i.id)
    (hbelow : ∀ i ∈ items, i.id < greatestId) (n : Nat) : (ofItems items n).Ordered where
  falling := hfalling.sublist (List.take_sublist _ _)
  below i hi := hbelow i (List.mem_of_mem_take hi)

/-- A recorded item stands in front of older ones, if its id has a next one. -/
theorem stamp_cons (h : l.Ordered) {now : Int} (hnow : -2 ^ 63 ≤ now) (item : Item) :
    (l.stamp now item :: l.items).Pairwise fun i j ↦ j.id < i.id :=
  List.pairwise_cons.mpr ⟨(nextId_bounds h.below hnow).2, h.falling⟩

/-- Every change keeps the order. -/
theorem apply (h : l.Ordered) {c : Change} (hclock : c.isInRange)
    (hissued : ∀ id ∈ l.issuedBy c, id < greatestId) : (l.apply c).Ordered := by
  cases c with
  | record now item =>
    rw [Change.isInRange, Bool.and_eq_true, decide_eq_true_iff] at hclock
    refine ⟨(h.stamp_cons hclock.1 item).sublist (List.take_sublist _ _), fun i hi ↦ ?_⟩
    rcases List.mem_cons.mp (List.mem_of_mem_take hi) with rfl | hi
    · exact hissued _ List.mem_cons_self
    · exact h.below i hi
  | setBound n => exact h.of_sublist ((List.take_sublist _ _).map Item.id)
  | remove id => exact h.of_sublist (List.filter_sublist.map Item.id)
  | setNote id note =>
    apply h.of_sublist
    rw [Ledger.apply, items_setNote, map_id_noteItem]
  | clear => exact h.of_sublist (List.nil_sublist _)

/-- So does every run. -/
theorem run (h : l.Ordered) {changes : List Change} (hclock : ∀ c ∈ changes, c.isInRange)
    (hissued : ∀ id ∈ l.issued changes, id < greatestId) : (l.run changes).Ordered := by
  induction changes generalizing l with
  | nil => exact h
  | cons c changes ih =>
    obtain ⟨hclock, hclocks⟩ := List.forall_mem_cons.mp hclock
    obtain ⟨hissued, hrest⟩ := List.forall_mem_append.mp hissued
    exact ih (h.apply hclock hissued) hclocks hrest

/-- No id stands for two items. -/
theorem nodup (h : l.Ordered) : (l.items.map Item.id).Nodup := by
  apply List.pairwise_map.mpr
  exact h.falling.imp fun hlt ↦ Int.ne_of_gt hlt

end Ordered

/-! ### What an operation does to ordered items -/

/-- Of the items `before` those `after` stay and the last `count` fall off, which are older. -/
def Drops (before after : List Item) (count : Nat) : Prop :=
  ∃ dropped, before = after ++ dropped ∧ dropped.length = count ∧
    ∀ d ∈ dropped, ∀ k ∈ after, d.id < k.id

/-- What lies past a bound falls off. -/
theorem drops_take {items : List Item} (h : items.Pairwise fun i j ↦ j.id < i.id) (n : Nat) :
    Drops items (items.take n) (items.length - n) := by
  have hsplit : items = items.take n ++ items.drop n := (List.take_append_drop n items).symm
  refine ⟨items.drop n, hsplit, List.length_drop, fun d hd k hk ↦ ?_⟩
  rw [hsplit] at h
  exact (List.pairwise_append.mp h).2.2 k hk d hd

/-- Where an id stands for one item, the items of other ids are those around it. -/
private theorem filter_id_ne {newer older : List Item} {i : Item}
    (h : ((newer ++ i :: older).map Item.id).Nodup) :
    (newer ++ i :: older).filter (fun j ↦ j.id != i.id) = newer ++ older := by
  rw [List.map_append, List.map_cons, List.nodup_middle, ← List.map_append] at h
  have hother : (newer ++ older).filter (fun j ↦ j.id != i.id) = newer ++ older := by
    apply List.filter_eq_self.mpr
    intro j hj
    exact bne_iff_ne.mpr fun heq ↦ (List.nodup_cons.mp h).1 (heq ▸ List.mem_map_of_mem hj)
  rw [List.filter_append, List.filter_cons_of_neg (by simp), ← List.filter_append, hother]

/-- Where an id stands for one item, its note is the only one that changes. -/
private theorem noteItem_eq_map {items : List Item} (h : (items.map Item.id).Nodup) (id : Int)
    (note : String) :
    noteItem id note items = items.map fun i ↦ if i.id = id then { i with notes := note } else i := by
  induction items with
  | nil => rfl
  | cons i items ih =>
    obtain ⟨hi, hitems⟩ := List.nodup_cons.mp h
    rw [noteItem, List.map_cons]
    by_cases heq : i.id = id
    · have hother : items.map (fun j ↦ if j.id = id then { j with notes := note } else j) =
          items.map fun j ↦ j := by
        apply List.map_congr_left
        intro j hj
        apply if_neg
        intro hid
        rw [heq, ← hid] at hi
        exact hi (List.mem_map_of_mem hj)
      rw [if_pos (beq_iff_eq.mpr heq), if_pos heq, hother, List.map_id']
    · rw [if_neg (by simpa using heq), if_neg heq, ih hitems]

namespace Ordered

variable {l : Ledger}

/-- An item is removed exactly if there is one of the id, and then it is the only one. -/
private theorem remove_iff (h : l.Ordered) (id : Int) :
    (l.remove id).2 = true ↔ ∃ newer i older, l.items = newer ++ i :: older ∧ i.id = id ∧
      (l.remove id).1.items = newer ++ older := by
  constructor
  · intro hfound
    have hlt : (l.items.filter fun j ↦ j.id != id).length ≠ l.items.length := bne_iff_ne.mp hfound
    obtain ⟨i, hi, hid⟩ : ∃ i ∈ l.items, i.id = id := by
      by_contra hnone
      apply hlt
      rw [List.filter_eq_self.mpr]
      intro j hj
      exact bne_iff_ne.mpr fun hid ↦ hnone ⟨j, hj, hid⟩
    obtain ⟨newer, older, hitems⟩ := List.append_of_mem hi
    refine ⟨newer, i, older, hitems, hid, ?_⟩
    have hnodup := h.nodup
    rw [hitems] at hnodup
    rw [items_remove, hitems, ← hid]
    exact filter_id_ne hnodup
  · rintro ⟨newer, i, older, hitems, -, hremoved⟩
    have hlength : (l.remove id).1.items.length ≠ l.items.length := by
      rw [hremoved, hitems, List.length_append, List.length_append, List.length_cons]
      omega
    exact bne_iff_ne.mpr hlength

end Ordered

/-- What finds no item to remove removes none. -/
private theorem remove_eq_self {l : Ledger} {id : Int} (h : (l.remove id).2 = false) :
    (l.remove id).1 = l := by
  have hlength : (l.items.filter fun j ↦ j.id != id).length = l.items.length := by
    simpa [remove, length] using h
  ext1
  · exact List.filter_sublist.eq_of_length hlength
  · rfl

/-- A note is changed exactly if there is an item with the id. -/
private theorem setNote_eq_true_iff (l : Ledger) (id : Int) (note : String) :
    (l.setNote id note).2 = true ↔ ∃ i ∈ l.items, i.id = id := by
  rw [setNote, get?, List.find?_isSome]
  simp

/-- A ledger that starts from items whose ids fall, and is filled by its own ids, keeps its bound
and its order in every run, whatever the clock shows. Next ids are no earlier than the clock and
above all recorded ones. What falls off is counted, and is older than what stays. An item is removed
alone, and its note is changed alone. -/
theorem run_accounts {items : List Item} (hfalling : items.Pairwise fun i j ↦ j.id < i.id)
    (hbelow : ∀ i ∈ items, i.id < greatestId) (n : Nat) {changes : List Change}
    (hclock : ∀ c ∈ changes, c.isInRange)
    (hissued : ∀ id ∈ (ofItems items n).issued changes, id < greatestId) :
    let l := (ofItems items n).run changes
    (1 ≤ l.bound ∧ l.length ≤ l.bound) ∧
    (l.items.Pairwise (fun i j ↦ j.id < i.id) ∧ (l.items.map Item.id).Nodup) ∧
    (∀ now, -2 ^ 63 ≤ now → now ≤ l.nextId now ∧ ∀ i ∈ l.items, i.id < l.nextId now) ∧
    (∀ now item, -2 ^ 63 ≤ now →
      let pushed := l.push (l.stamp now item)
      Drops (l.stamp now item :: l.items) pushed.1.items pushed.2) ∧
    (∀ m, Drops l.items (l.setBound m).1.items (l.setBound m).2) ∧
    (∀ id, ((l.remove id).2 = true ↔ ∃ newer i older, l.items = newer ++ i :: older ∧ i.id = id ∧
        (l.remove id).1.items = newer ++ older) ∧
      ((l.remove id).2 = false → (l.remove id).1 = l)) ∧
    (∀ id note, ((l.setNote id note).2 = true ↔ ∃ i ∈ l.items, i.id = id) ∧
      (l.setNote id note).1.bound = l.bound ∧
      (l.setNote id note).1.items =
        l.items.map fun i ↦ if i.id = id then { i with notes := note } else i) := by
  intro l
  have hl : l.Ordered := (Ordered.ofItems hfalling hbelow n).run hclock hissued
  refine ⟨⟨l.bound_pos, l.length_le⟩, ⟨hl.falling, hl.nodup⟩, ?_, ?_, ?_, ?_, ?_⟩
  · exact fun now hnow ↦ nextId_bounds hl.below hnow
  · intro now item hnow pushed
    exact drops_take (hl.stamp_cons hnow item) l.bound
  · exact fun m ↦ drops_take hl.falling (clampBound m)
  · exact fun id ↦ ⟨hl.remove_iff id, remove_eq_self⟩
  · exact fun id note ↦ ⟨l.setNote_eq_true_iff id note, rfl, noteItem_eq_map hl.nodup id note⟩

/-- The clock stands behind all recorded ids and goes back before the year 1970, while items fall
off by a push and by a bound of zero, which is taken as one. -/
theorem run_accounts_of_backward_clock :
    let item (id : Int) : Item := ⟨id, "2×3", "6", none, none, none, none, "2024-02-29", "23:59", ""⟩
    let items := [item 9, item 7, item 4]
    let changes : List Change :=
      [.record 5 (item 0), .setBound 4, .record 10 (item 0), .record (-1) (item 0), .remove 11,
        .setNote 9 "rent", .record 11 (item 0), .setBound 3]
    let l := (ofItems items 2).run changes
    (items.Pairwise (fun i j ↦ j.id < i.id) ∧ (∀ i ∈ items, i.id < greatestId) ∧
      (∀ c ∈ changes, c.isInRange) ∧
      ∀ id ∈ (ofItems items 2).issued changes, id < greatestId) ∧
    l.items.map Item.id = [13, 12, 10] ∧ l.nextId 0 = 14 ∧
    let pushed := l.push (l.stamp 0 (item 0))
    let bounded := l.setBound 0
    pushed.2 = 1 ∧ Drops (l.stamp 0 (item 0) :: l.items) pushed.1.items pushed.2 ∧
      bounded.2 = 2 ∧ Drops l.items bounded.1.items bounded.2 := by
  intro item items changes l
  have hfalling : items.Pairwise fun i j ↦ j.id < i.id := by decide
  have hbelow : ∀ i ∈ items, i.id < greatestId := by decide
  have hclock : ∀ c ∈ changes, c.isInRange := by decide
  have hissued : ∀ id ∈ (ofItems items 2).issued changes, id < greatestId := by decide +kernel
  obtain ⟨-, -, -, hpush, hbound, -⟩ := run_accounts hfalling hbelow 2 hclock hissued
  refine ⟨⟨hfalling, hbelow, hclock, hissued⟩, by decide +kernel, by decide +kernel,
    by decide +kernel, ?_, by decide +kernel, ?_⟩
  · exact hpush 0 (item 0) (by decide)
  · exact hbound 0

/-! ### The ids of a whole run -/

/-- A recorded item was there before or has an id that was given out. -/
private theorem id_mem_apply {l : Ledger} {c : Change} {i : Item} (h : i ∈ (l.apply c).items) :
    i.id ∈ l.items.map Item.id ∨ i.id ∈ l.issuedBy c := by
  have hold {j : Item} (hj : j ∈ l.items) : j.id ∈ l.items.map Item.id := List.mem_map_of_mem hj
  cases c with
  | record now item =>
    rcases List.mem_cons.mp (List.mem_of_mem_take h) with rfl | h
    · exact .inr List.mem_cons_self
    · exact .inl (hold h)
  | setBound n => exact .inl (hold (List.mem_of_mem_take h))
  | remove id => exact .inl (hold (List.mem_filter.mp h).1)
  | setNote id note =>
    rw [apply, items_setNote] at h
    rw [← map_id_noteItem id note l.items]
    exact .inl (List.mem_map_of_mem h)
  | clear => cases h

/-- So it is after every run. -/
private theorem id_mem_run {l : Ledger} {changes : List Change} {i : Item}
    (h : i ∈ (l.run changes).items) :
    i.id ∈ l.items.map Item.id ∨ i.id ∈ l.issued changes := by
  induction changes generalizing l with
  | nil => exact .inl (List.mem_map_of_mem h)
  | cons c changes ih =>
    rw [issued, List.mem_append]
    rcases ih h with hrecorded | hissued
    · obtain ⟨j, hj, hid⟩ := List.mem_map.mp hrecorded
      rw [← hid, ← or_assoc]
      exact .inl (id_mem_apply hj)
    · exact .inr (.inr hissued)

/-- The last of rising ids is the greatest. -/
theorem le_getLast?_of_rising {ids : List Int} (h : ids.Pairwise (· < ·)) {last : Int}
    (hlast : ids.getLast? = some last) {id : Int} (hid : id ∈ ids) : id ≤ last := by
  obtain ⟨earlier, rfl⟩ := List.getLast?_eq_some_iff.mp hlast
  rcases List.mem_append.mp hid with hid | hid
  · exact Int.le_of_lt ((List.pairwise_append.mp h).2.2 id hid last List.mem_cons_self)
  · exact Int.le_of_eq (List.mem_singleton.mp hid)

/-- One more id keeps rising ids so exactly if the clock is past the last of them or the item that
has it is still recorded. -/
private theorem rising_append_nextId_iff {l : Ledger} (h : l.Ordered) {ids : List Int}
    (hrecorded : ∀ i ∈ l.items, i.id ∈ ids) {now : Int} (hnow : -2 ^ 63 ≤ now) :
    (ids ++ [l.nextId now]).Pairwise (· < ·) ↔ ids.Pairwise (· < ·) ∧
      ∀ last, ids.getLast? = some last → last < now ∨ last ∈ l.items.map Item.id := by
  rw [List.pairwise_append]
  constructor
  · rintro ⟨hrising, -, hlt⟩
    refine ⟨hrising, fun last hlast ↦ ?_⟩
    have hnext := hlt last (List.mem_of_getLast? hlast) _ List.mem_cons_self
    refine ((lt_nextId_iff h.below hnow last).mp hnext).imp_right ?_
    rintro ⟨i, hi, hle⟩
    -- No recorded id is above the last one that was given out.
    have hge := le_getLast?_of_rising hrising hlast (hrecorded i hi)
    exact Int.le_antisymm hle hge ▸ List.mem_map_of_mem hi
  · rintro ⟨hrising, hlast⟩
    refine ⟨hrising, List.pairwise_singleton _ _, fun id hid next hnext ↦ ?_⟩
    rw [List.mem_singleton.mp hnext]
    obtain ⟨last, hgetLast⟩ : ∃ last, ids.getLast? = some last :=
      Option.isSome_iff_exists.mp (List.getLast?_isSome.mpr (List.ne_nil_of_mem hid))
    apply Int.lt_of_le_of_lt (le_getLast?_of_rising hrising hgetLast hid)
    apply (lt_nextId_iff h.below hnow last).mpr
    refine (hlast last hgetLast).imp_right fun hmem ↦ ?_
    obtain ⟨i, hi, hid⟩ := List.mem_map.mp hmem
    exact ⟨i, hi, Int.le_of_eq hid.symm⟩

/-- Whether the clock is past the last id that was given out, or the item that has it is still
recorded, when an item is recorded. -/
def Change.Advances (start : Ledger) (earlier : List Change) : Change → Prop
  | .record now _ => ∀ last, (start.issued earlier).getLast? = some last →
      last < now ∨ last ∈ (start.run earlier).items.map Item.id
  | _ => True

/-- What holds at every place of a longer list holds at every place of the list and at its end. -/
private theorem forall_append_cons_concat_iff {α : Type} {P : List α → α → Prop} {xs : List α}
    {a : α} : (∀ ys b zs, xs ++ [a] = ys ++ b :: zs → P ys b) ↔
      (∀ ys b zs, xs = ys ++ b :: zs → P ys b) ∧ P xs a := by
  constructor
  · intro h
    refine ⟨?_, h xs a [] rfl⟩
    rintro ys b zs rfl
    exact h ys b (zs ++ [a]) (by simp)
  · rintro ⟨h, hlast⟩ ys b zs heq
    rcases List.eq_nil_or_concat zs with rfl | ⟨zs, z, rfl⟩
    · obtain ⟨rfl, hb⟩ := List.append_inj' heq rfl
      cases hb
      exact hlast
    · rw [List.concat_eq_append, ← List.cons_append, ← List.append_assoc] at heq
      exact h ys b zs (List.append_inj_left' heq rfl)

/-- The ids that a ledger gives out from its beginning rise exactly if, whenever an item is
recorded, the clock is past the last id that was given out or the item that has it is still
recorded. Otherwise an id comes again, or a smaller one. -/
theorem issued_rise_iff (n : Nat) {changes : List Change} (hclock : ∀ c ∈ changes, c.isInRange)
    (hissued : ∀ id ∈ (ofItems [] n).issued changes, id < greatestId) :
    ((ofItems [] n).issued changes).Pairwise (· < ·) ↔
      ∀ earlier c later, changes = earlier ++ c :: later → c.Advances (ofItems [] n) earlier := by
  induction changes using List.reverseRecOn with
  | nil => simp [issued]
  | append_singleton changes c ih =>
    rw [issued_append] at hissued
    obtain ⟨hclock, hlast⟩ := List.forall_mem_append.mp hclock
    obtain ⟨hissued, -⟩ := List.forall_mem_append.mp hissued
    have hordered : ((ofItems [] n).run changes).Ordered :=
      (Ordered.ofItems .nil (fun i hi ↦ by cases hi) n).run hclock hissued
    have hrecorded : ∀ i ∈ ((ofItems [] n).run changes).items,
        i.id ∈ (ofItems [] n).issued changes := by
      intro i hi
      exact (id_mem_run hi).resolve_left (by simp)
    rw [forall_append_cons_concat_iff, ← ih hclock hissued, issued_append]
    cases c with
    | record now item =>
      have hnow : -2 ^ 63 ≤ now := by
        have hinRange := hlast _ List.mem_cons_self
        rw [Change.isInRange, Bool.and_eq_true, decide_eq_true_iff] at hinRange
        exact hinRange.1
      exact rising_append_nextId_iff hordered hrecorded hnow
    | _ => simp [issued, issuedBy, Change.Advances]

/-- The clock goes back, an item is deleted that is not the newest and others fall off. The ledger
is cleared only when the clock has moved past its ids, so none of them comes again. -/
theorem issued_rise_over_deletions :
    let item : Item := ⟨0, "2×3", "6", none, none, none, none, "2024-02-29", "23:59", ""⟩
    let changes : List Change :=
      [.record 1000 item, .record 990 item, .remove 1000, .setBound 1, .record (-7) item, .clear,
        .record 1003 item, .record 0 item]
    ((∀ c ∈ changes, c.isInRange) ∧ ∀ id ∈ (ofItems [] 10).issued changes, id < greatestId) ∧
    (ofItems [] 10).issued changes = [1000, 1001, 1002, 1003, 1004] ∧
    ∀ earlier c later, changes = earlier ++ c :: later → c.Advances (ofItems [] 10) earlier := by
  intro item changes
  have hclock : ∀ c ∈ changes, c.isInRange := by decide
  have hissued : ∀ id ∈ (ofItems [] 10).issued changes, id < greatestId := by decide +kernel
  refine ⟨⟨hclock, hissued⟩, by decide +kernel, ?_⟩
  exact (issued_rise_iff 10 hclock hissued).mp (by decide +kernel)

/-- An id comes again if the newest item is removed before the clock moves on. -/
theorem id_comes_again :
    let item : Item := ⟨0, "2×3", "6", none, none, none, none, "2024-02-29", "23:59", ""⟩
    let changes : List Change := [.record 1000 item, .remove 1000, .record 1000 item]
    (∀ c ∈ changes, c.isInRange) ∧ (ofItems [] 10).issued changes = [1000, 1000] ∧
      ¬ ((ofItems [] 10).issued changes).Pairwise (· < ·) := by
  decide +kernel

end DeskCalculator.History.Ledger
