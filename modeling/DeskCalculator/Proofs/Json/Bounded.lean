import DeskCalculator.Proofs.Json.Leaves
import DeskCalculator.Proofs.Json.Numerals

/-!
# Integers of a read value

Whatever a text holds, every integer that is read from it has 64 bits: a numeral out of that range
is read as a double. So a store can hold every value that it reads (`held_of_readStored?`).
-/

namespace DeskCalculator.Json

private theorem holdsOfRead_isInteger64 :
    HoldsOfRead fun w ↦ ∀ n, w = integer n → isInteger64 n where
  null _ h := by cases h
  bool _ _ h := by cases h
  numeral _ _ := Numeral.isInteger64_of_value
  string _ _ h := by cases h
  array _ _ h := by cases h
  object _ _ h := by cases h
  unreadable _ h := by cases h

/-- All integers of a value that is read have 64 bits. -/
theorem bounded_of_read? {cs : List Char} {v : Json} (h : read? cs = some v) : v.Bounded :=
  allParts_of_read? holdsOfRead_isInteger64 h

/-- A store can hold what it reads, and write it within the depth that it can read. -/
theorem held_of_readStored? {cs : List Char} {v : Json} (h : readStored? cs = some v) :
    v.Held ∧ v.depth ≤ maxDepth := by
  obtain ⟨w, hw, h⟩ := Option.bind_eq_some_iff.mp h
  split at h
  · next hstored =>
    obtain ⟨hreadable, hdepth⟩ := Bool.and_eq_true_iff.mp hstored
    cases h
    exact ⟨held_sorted hreadable (bounded_of_read? hw),
      Nat.le_trans (depth_sorted_le w) (of_decide_eq_true hdepth)⟩
  · cases h

end DeskCalculator.Json
