import PluralRules.Text.Split
import PluralRules.Text.Lines
import PluralRules.Suggestion
import PluralRules.Fingerprint
import PluralRules.Quantity.Operand
import PluralRules.Quantity.Printer
import PluralRules.Quantity.Numeral
import PluralRules.Culture
import PluralRules.Label.Key
import PluralRules.Label.Json
import PluralRules.Expr.Printer
import PluralRules.Expr.Key
import PluralRules.Expr.Eval
import PluralRules.Line.Grammar
import PluralRules.Rule.Printer
import PluralRules.Rule.Key
import PluralRules.Sheet
import PluralRules.Catalog.Basic
import PluralRules.Proofs.Rules
import PluralRules.Proofs.Printed
import PluralRules.Proofs.Exact
import PluralRules.Proofs.Ledger
import PluralRules.Proofs.Canonical
import PluralRules.Proofs.TextWidths
import PluralRules.Proofs.Typing
import PluralRules.Proofs.Safety
import PluralRules.Proofs.Selection
import PluralRules.Proofs.Checks
import PluralRules.Proofs.Keys
import PluralRules.Proofs.Reformatting
import PluralRules.Proofs.Doubts
import PluralRules.Proofs.Ranges
import PluralRules.Proofs.Rereading
import PluralRules.Proofs.SelectorKey
import PluralRules.Proofs.Trees
import PluralRules.Proofs.Comparisons
import PluralRules.Proofs.Remainder
import PluralRules.Proofs.Order
import PluralRules.Proofs.Places
import PluralRules.Proofs.Respacing
import PluralRules.Proofs.OtherKeys
import PluralRules.Proofs.Sharing
import PluralRules.Proofs.Cultures
import PluralRules.Proofs.Headers
import PluralRules.Proofs.Progress
