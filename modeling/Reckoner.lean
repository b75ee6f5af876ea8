import Reckoner.Calculator
import Reckoner.Expr.Text
import Reckoner.Main
import Reckoner.Proofs.Bindings
import Reckoner.Proofs.Bindings.Assignment
import Reckoner.Proofs.Declaration.Bytes
import Reckoner.Proofs.Declaration.Form
import Reckoner.Proofs.Editor.Buffer
import Reckoner.Proofs.Editor.LineBuffer
import Reckoner.Proofs.Expr.Acceptance
import Reckoner.Proofs.Expr.Agreement
import Reckoner.Proofs.Expr.Arithmetic
import Reckoner.Proofs.Expr.Brackets
import Reckoner.Proofs.Expr.Depth
import Reckoner.Proofs.Expr.Descent
import Reckoner.Proofs.Expr.FaultSpan
import Reckoner.Proofs.Expr.FaultStart
import Reckoner.Proofs.Expr.Frames
import Reckoner.Proofs.Expr.Grammar
import Reckoner.Proofs.Expr.Height
import Reckoner.Proofs.Expr.InOrder
import Reckoner.Proofs.Expr.Juxtaposition
import Reckoner.Proofs.Expr.Layout
import Reckoner.Proofs.Expr.Nesting
import Reckoner.Proofs.Expr.Phase
import Reckoner.Proofs.Expr.Postorder
import Reckoner.Proofs.Expr.Promotion
import Reckoner.Proofs.Expr.Regular
import Reckoner.Proofs.Expr.Simulation
import Reckoner.Proofs.Expr.Stands
import Reckoner.Proofs.Expr.Subtraction
import Reckoner.Proofs.Expr.Written
import Reckoner.Proofs.Fallible
import Reckoner.Proofs.Number.Amount
import Reckoner.Proofs.Number.Whole
import Reckoner.Proofs.Outcome
import Reckoner.Proofs.Session.Confirmation
import Reckoner.Proofs.Session.Failure
import Reckoner.Proofs.Session.Freshness
import Reckoner.Proofs.Session.Reopening
import Reckoner.Proofs.Session.Response
import Reckoner.Proofs.Session.Run
import Reckoner.Proofs.Session.Synced
import Reckoner.Proofs.Sheet.FaultPlace
import Reckoner.Proofs.Sheet.History
import Reckoner.Proofs.Sheet.Interference
import Reckoner.Proofs.Sheet.Ledger
import Reckoner.Proofs.Sheet.Locality
import Reckoner.Proofs.Sheet.Reference
import Reckoner.Proofs.Sheet.Report
import Reckoner.Proofs.Token.CharUse
import Reckoner.Proofs.Token.Cut
import Reckoner.Proofs.Token.Order
import Reckoner.Proofs.Token.Spelling
import Reckoner.Proofs.View.Cursor
import Reckoner.Proofs.Vocabulary.Building
import Reckoner.Proofs.Vocabulary.Congruence
import Reckoner.Proofs.Vocabulary.Extension
import Reckoner.Proofs.Vocabulary.Lookup
import Reckoner.Session.InFolder
import Reckoner.View.Window
