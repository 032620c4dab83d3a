import DeskCalculator.Diagnosis.Repair

/-!
# Diagnosing a failed expression

The diagnosis shows the first problem of the expression and, when there is a repair, offers it. For
a result that is not finite a division by a literal zero is looked for before anything else.

Specification: §4.4.
-/

namespace DeskCalculator

open Expression (CalcError)

/-- What the user is shown about a failed expression. -/
structure Diagnosis where
  /-- The expression around the first problem. -/
  details : Option Diagnosis.Split
  /-- The repaired expression. -/
  suggestion : Option (List Char)
  /-- What the repair does, or what the problem is. -/
  hint : String
  deriving Repr, DecidableEq

namespace Diagnosis

/-- The problems in the order in which they are looked for after an error. -/
def searchOrder : CalcError → List Problem
  | .invalidExpression .nonFinite => .divisionByZero :: Problem.inOrder
  | _ => Problem.inOrder

/-- The first problem of an expression and its place. -/
def locate (cs : List Char) (e : CalcError) : Option (Problem × Split) :=
  (searchOrder e).findSome? fun p ↦ (p.find cs).map (p, ·)

/-- The diagnosis of an expression that failed with an error. -/
def diagnose (cs : List Char) (e : CalcError) : Diagnosis :=
  if cs.all Text.isBlank then ⟨none, none, "Enter an expression to calculate."⟩
  else
    let found := locate cs e
    match repair? cs with
    | some (fixed, steps) => ⟨found.map Prod.snd, some fixed, stepsText steps⟩
    | none =>
      ⟨found.map Prod.snd, none,
        (found.map fun f ↦ f.1.hint).getD "No automatic correction is available."⟩

/-- The details put together are the expression. -/
theorem details_append {cs : List Char} {e : CalcError} {s : Split}
    (h : (diagnose cs e).details = some s) : s.before ++ s.span ++ s.after = cs := by
  have key (h : (locate cs e).map Prod.snd = some s) : s.before ++ s.span ++ s.after = cs := by
    obtain ⟨f, hf, rfl⟩ := Option.map_eq_some_iff.1 h
    obtain ⟨p, _, hp⟩ := List.exists_of_findSome?_eq_some hf
    obtain ⟨s, hs, rfl⟩ := Option.map_eq_some_iff.1 hp
    simpa using firstSplit_append hs
  unfold diagnose at h
  split at h
  · simp at h
  · split at h <;> exact key h

end Diagnosis

end DeskCalculator
