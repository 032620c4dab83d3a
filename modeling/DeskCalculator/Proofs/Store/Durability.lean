import DeskCalculator.Proofs.Json.Bounded
import DeskCalculator.Proofs.Json.Reading
import DeskCalculator.Store.Backing
import Mathlib.Data.List.Induction

/-!
# What a file store keeps

A write that fails leaves the entries in memory ahead of the file, and the next write that succeeds
brings the file up with them, since it writes all entries. So after every write that succeeds the
file, opened anew, holds what the store holds: the last value of every key that has been stored,
written or not, and of every other key what the file held at first (`get?_load_of_set_ok`).
-/

namespace DeskCalculator.Store

/-- A value that lasts in a file of entries: a store can hold it (its integers have 64 bits and the
keys of its objects ascend), and its doubles are read back. One of the levels of nesting that the
reader allows is the object of all entries. -/
structure Lasting (v : Json) : Prop where
  held : v.Held
  depth_lt : v.depth < Json.maxDepth
  readsBack : ∀ x ∈ v.doubles, Json.readsBack x

instance (v : Json) : Decidable (Lasting v) :=
  decidable_of_iff (v.Held ∧ v.depth < Json.maxDepth ∧ ∀ x ∈ v.doubles, Json.readsBack x)
    ⟨fun ⟨held, depth_lt, readsBack⟩ ↦ ⟨held, depth_lt, readsBack⟩,
      fun ⟨held, depth_lt, readsBack⟩ ↦ ⟨held, depth_lt, readsBack⟩⟩

/-- Entries that last: their keys ascend and each of their values lasts. -/
structure LastingEntries (entries : Entries) : Prop where
  ascending : Json.Ascending entries
  lasting : ∀ m ∈ entries, Lasting m.2

private theorem lastingEntries_iff {entries : Entries} :
    LastingEntries entries ↔ (Json.object entries).Held ∧
      (Json.object entries).depth ≤ Json.maxDepth ∧
      ∀ x ∈ (Json.object entries).doubles, Json.readsBack x := by
  have hdepth : (Json.object entries).depth ≤ Json.maxDepth ↔
      ∀ m ∈ entries, m.2.depth < Json.maxDepth := by
    rw [Json.depth, Nat.succ_le_iff, Json.maxDepth, Nat.lt_succ_iff, Json.membersDepth_le_iff]
    simp only [Nat.lt_succ_iff]
  rw [hdepth, Json.forall_doubles_iff, Json.forall_parts_object_iff, Json.Held,
    Json.forall_parts_object_iff]
  constructor
  · rintro ⟨hascending, hlasting⟩
    refine ⟨⟨decide_eq_true hascending, fun m hm ↦ (hlasting m hm).held⟩,
      fun m hm ↦ (hlasting m hm).depth_lt, ?_, fun m hm ↦ ?_⟩
    · rintro x ⟨⟩
    · exact Json.forall_doubles_iff.mp (hlasting m hm).readsBack
  · rintro ⟨⟨hascending, hheld⟩, hdepth, -, hdoubles⟩
    refine ⟨of_decide_eq_true hascending, fun m hm ↦ ⟨hheld m hm, hdepth m hm, ?_⟩⟩
    exact Json.forall_doubles_iff.mpr (hdoubles m hm)

theorem LastingEntries.put {entries : Entries} (h : LastingEntries entries) {w : Write}
    (hw : Lasting w.2) : LastingEntries (put entries w) where
  ascending := h.ascending.insertMember w.1 w.2
  lasting := by
    intro m hm
    rcases Json.mem_insertMember hm with rfl | hm
    · exact hw
    · exact h.lasting m hm

private theorem LastingEntries.foldl_put {entries : Entries} (h : LastingEntries entries)
    {writes : List Write} (hwrites : ∀ w ∈ writes, Lasting w.2) :
    LastingEntries (writes.foldl Store.put entries) := by
  induction writes generalizing entries with
  | nil => exact h
  | cons w ws ih =>
    obtain ⟨hw, hws⟩ := List.forall_mem_cons.mp hwrites
    exact ih (h.put hw) hws

/-- The value of the last of some writes under a key. -/
def lastValue? (writes : List Write) (key : String) : Option Json :=
  (writes.filter fun w ↦ w.1 = key).getLast?.map Prod.snd

/-- A key holds the last value written under it, or else what it held before. -/
private theorem get?_foldl_put (entries : Entries) (writes : List Write) (key : String) :
    get? (writes.foldl put entries) key = (lastValue? writes key).or (get? entries key) := by
  induction writes using List.reverseRecOn with
  | nil => rfl
  | append_singleton ws w ih =>
    rw [List.foldl_append, List.foldl_cons, List.foldl_nil]
    by_cases hkey : w.1 = key
    · rw [← hkey, get?_put_self]
      simp [lastValue?]
    · rw [get?_put_of_ne (Ne.symm hkey), ih]
      simp [lastValue?, hkey]

namespace File

/-- A store after values have been stored one after the other; the flags say which writes
succeed. -/
def run (f : File) (sets : List (Write × Bool)) : File :=
  sets.foldl (fun f s ↦ (f.set s.1 s.2).1) f

/-- A store keeps every value in memory, also one that it could not write. -/
theorem entries_set (f : File) (w : Write) (succeeds : Bool) :
    (f.set w succeeds).1.entries = put f.entries w := by
  cases succeeds <;> rfl

private theorem entries_run (f : File) (sets : List (Write × Bool)) :
    (f.run sets).entries = (sets.map Prod.fst).foldl put f.entries := by
  induction sets generalizing f with
  | nil => rfl
  | cons s sets ih =>
    rw [run, List.foldl_cons, ← run, ih, entries_set, List.map_cons, List.foldl_cons]

/-- After a write that succeeds the file holds the entries. -/
private theorem contents_of_set_ok {f : File} {w : Write} {succeeds : Bool}
    (h : (f.set w succeeds).2 = .ok ()) :
    (f.set w succeeds).1.contents = .text (entriesText (put f.entries w)) := by
  cases succeeds with
  | false => cases h
  | true => rfl

/-- Entries that last are read from the text that is written for them. -/
private theorem readEntries_entriesText {entries : Entries} (h : LastingEntries entries) :
    readEntries (.text (entriesText entries)) = .ok entries := by
  obtain ⟨hheld, hdepth, hdoubles⟩ := lastingEntries_iff.mp h
  rw [readEntries, entriesText, Json.readStored?_pretty hheld hdoubles hdepth]

/-- A file holds entries that last, if its doubles are read back. -/
private theorem lastingEntries_of_readEntries {contents : Contents} {entries : Entries}
    (h : readEntries contents = .ok entries)
    (hdoubles : ∀ x ∈ (Json.object entries).doubles, Json.readsBack x) :
    LastingEntries entries := by
  unfold readEntries at h
  split at h
  · split at h
    · next hread =>
      cases h
      obtain ⟨hheld, hdepth⟩ := Json.held_of_readStored? hread
      exact lastingEntries_iff.mpr ⟨hheld, hdepth, hdoubles⟩
    · cases h
  · cases h

private theorem lastingEntries_load {contents : Contents}
    (h : ∀ entries, readEntries contents = .ok entries →
      ∀ x ∈ (Json.object entries).doubles, Json.readsBack x) :
    LastingEntries (load contents).entries := by
  rw [load]
  cases hread : readEntries contents with
  | error e => exact ⟨.nil, by rintro m ⟨⟩⟩
  | ok entries => exact lastingEntries_of_readEntries hread (h entries hread)

private theorem get?_load (contents : Contents) (key : String) :
    get? (load contents).entries key = (readEntries contents).toOption.bind (get? · key) := by
  rw [load]
  cases readEntries contents with
  | error e => rfl
  | ok entries => rfl

/-- After every write that succeeds, whichever writes failed before, a store that is opened on the
file anew gives the same values as the store itself: of each key the value of its last write, and of
a key that has not been written what the file held at first, if it could be read. -/
theorem get?_load_of_set_ok (contents : Contents) (sets : List (Write × Bool)) (w : Write)
    (succeeds : Bool)
    (hcontents : ∀ entries, readEntries contents = .ok entries →
      ∀ x ∈ (Json.object entries).doubles, Json.readsBack x)
    (hvalues : ∀ s ∈ sets ++ [(w, succeeds)], Lasting s.1.2)
    (hok : (((load contents).run sets).set w succeeds).2 = .ok ()) (key : String) :
    let live := (((load contents).run sets).set w succeeds).1
    get? (load live.contents).entries key = get? live.entries key ∧
      get? live.entries key = (lastValue? (sets.map Prod.fst ++ [w]) key).or
        ((readEntries contents).toOption.bind (get? · key)) := by
  have hentries : (((load contents).run sets).set w succeeds).1.entries =
      (sets.map Prod.fst ++ [w]).foldl put (load contents).entries := by
    rw [entries_set, entries_run, List.foldl_append]
    rfl
  have hwrites : ∀ v ∈ sets.map Prod.fst ++ [w], Lasting v.2 := by
    intro v hv
    rcases List.mem_append.mp hv with hv | hv
    · obtain ⟨s, hs, rfl⟩ := List.mem_map.mp hv
      exact hvalues s (List.mem_append_left _ hs)
    · rw [List.mem_singleton.mp hv]
      exact hvalues (w, succeeds) (by simp)
  have hlasting := (lastingEntries_load hcontents).foldl_put hwrites
  constructor
  · rw [contents_of_set_ok hok, load, ← entries_set _ _ succeeds, hentries,
      readEntries_entriesText hlasting]
    rfl
  · rw [hentries, get?_foldl_put, get?_load]

/-- A key is given twice in the file, a value could not be written at first, and another one has
been written over. -/
theorem get?_load_after_failed_set :
    let contents : Contents := .text "\x7b\"rate\": 1, \"size\": 7, \"rate\": -2.50e-1\x7d".toList
    let nested : Json :=
      .object [("a", .array [.integer (-3), .null]), ("b", .string "\"\x01\u00e9\n")]
    let sets : List (Write × Bool) :=
      [(("layout", nested), false), (("size", .bool true), true)]
    let share : Write := ("share", .float 0.1)
    let live := (((load contents).run sets).set share true).1
    ((∀ entries, readEntries contents = .ok entries →
        ∀ x ∈ (Json.object entries).doubles, Json.readsBack x) ∧
      ∀ s ∈ sets ++ [(share, true)], Lasting s.1.2) ∧
    get? (load live.contents).entries "layout" = some nested ∧
    (get? (load live.contents).entries "rate").bind Json.asFloat? = some (-0.25) ∧
    (get? (load live.contents).entries "theme").isNone := by
  intro contents nested sets share live
  have hcontents : ∀ entries, readEntries contents = .ok entries →
      ∀ x ∈ (Json.object entries).doubles, Json.readsBack x := by
    have hall : (match readEntries contents with
        | .ok entries => (Json.object entries).doubles.all Json.readsBack
        | .error _ => false) = true := by decide +kernel
    intro entries hread
    rw [hread] at hall
    exact List.all_eq_true.mp hall
  have hvalues : ∀ s ∈ sets ++ [(share, true)], Lasting s.1.2 := by decide +kernel
  have hkept := get?_load_of_set_ok contents sets share true hcontents hvalues rfl
  refine ⟨⟨hcontents, hvalues⟩, ?_, ?_, ?_⟩
  · rw [(hkept "layout").1, (hkept "layout").2]
    rfl
  · rw [(hkept "rate").1, (hkept "rate").2]
    decide +kernel
  · rw [(hkept "theme").1, (hkept "theme").2]
    decide +kernel

end File

end DeskCalculator.Store
