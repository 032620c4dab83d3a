import DeskCalculator.Main
import DeskCalculator.Proofs.Buffer.Digits
import DeskCalculator.Proofs.Buffer.Products
import DeskCalculator.Proofs.Buffer.Sign
import DeskCalculator.Proofs.Buffer.Spelling
import DeskCalculator.Proofs.Console.Dispatch
import DeskCalculator.Proofs.Console.Tax
import DeskCalculator.Proofs.Diagnosis.Spans
import DeskCalculator.Proofs.Display.Blanks
import DeskCalculator.Proofs.Display.NonFinite
import DeskCalculator.Proofs.Expression.Intermediate
import DeskCalculator.Proofs.Expression.Positions
import DeskCalculator.Proofs.History.Text
import DeskCalculator.Proofs.Number.Canonical
import DeskCalculator.Proofs.Session.Dropped
import DeskCalculator.Proofs.Session.Failures
import DeskCalculator.Proofs.Session.Repaired
import DeskCalculator.Proofs.Session.Results
import DeskCalculator.Proofs.Session.Shape
import DeskCalculator.Proofs.Session.Typing
import DeskCalculator.Proofs.Settings.RoundTrip
import DeskCalculator.Proofs.Store.Durability
import DeskCalculator.Proofs.Tax.Label
