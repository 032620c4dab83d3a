import DeskCalculator.Tax.Settings

/-!
# Applying a tax

A result is taxed if the tax is switched on and the taxed value is finite. Its label shows the
difference with two places and the rate.

Specification: §4.3 and §E7.
-/

namespace DeskCalculator.Tax

/-- A result after tax. -/
structure Taxed where
  value : Float
  /-- The difference that the tax makes, and the rate. -/
  label : List Char

/-- The factor of a rate in percent: `1 + rate / 100`. -/
def rateFactor (rate : Float) : Float :=
  1 + rate / 100

/-- The value of a result after tax, finite or not. -/
def taxedValue (result : Float) (s : Settings) : Float :=
  match s.mode with
  | .add15 => result * 1.15
  | .custom => result * rateFactor s.rate
  | .extractCustom => result / rateFactor s.rate
  | .divide93 => result / 0.93

/-- A double without its sign. -/
def magnitude (x : Float) : Float :=
  Number.ofMagnitude false (Number.magnitudeBits x)

/-- The label of a tax that changes a result by `delta`. -/
def label (delta rate : Float) : List Char :=
  (if delta < 0 then '-' else '+') ::
    Number.fixedText 2 (magnitude delta) ++
    (" (".toList ++ Number.displayText rate ++ "%)".toList)

/-- The result after tax, if there is one. -/
def taxed? (result : Float) (s : Settings) : Option Taxed :=
  let value := taxedValue result s
  if s.isEnabled && value.isFinite then
    some ⟨value, label (value - result) (s.mode.effectiveRate s.rate)⟩
  else none

end DeskCalculator.Tax
