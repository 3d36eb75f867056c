import StyleAudit.Command.Run
import StyleAudit.Main
import StyleAudit.Proofs.Text.Words
import StyleAudit.Proofs.Code.Grammar
import StyleAudit.Proofs.Code.Slices
import StyleAudit.Proofs.Code.Locality
import StyleAudit.Proofs.Expression.Interpretation
import StyleAudit.Proofs.Expression.Stages
import StyleAudit.Proofs.Expression.Layout
import StyleAudit.Proofs.Expression.Failure
import StyleAudit.Proofs.Expression.Spans
import StyleAudit.Proofs.Expression.Slots
import StyleAudit.Proofs.Expression.Comments
import StyleAudit.Proofs.Markup.Compose
import StyleAudit.Proofs.Markup.Failure
import StyleAudit.Proofs.Markup.Template
import StyleAudit.Proofs.Markup.Sources
import StyleAudit.Proofs.Markup.QuotedLists
import StyleAudit.Proofs.Markup.TemplateLines
import StyleAudit.Proofs.Groups
import StyleAudit.Proofs.Ledger.Pairwise
import StyleAudit.Proofs.Ledger.Steps
import StyleAudit.Proofs.Ledger.LinkOnce
import StyleAudit.Proofs.Analysis.Grouping
import StyleAudit.Proofs.Analysis.Independence
import StyleAudit.Proofs.Analysis.Exclusion
import StyleAudit.Proofs.Analysis.Remedies
import StyleAudit.Proofs.Analysis.Suggestions
import StyleAudit.Proofs.Path.Segments
import StyleAudit.Proofs.Store.Scan
import StyleAudit.Proofs.Store.Places
import StyleAudit.Proofs.Store.Writing
import StyleAudit.Proofs.Store.Unseen
import StyleAudit.Proofs.Text.Encoding
import StyleAudit.Proofs.Session
import StyleAudit.Proofs.Json.Printed
import StyleAudit.Proofs.Json.Strings
import StyleAudit.Proofs.Json.Numbers
import StyleAudit.Proofs.Json.Readable
import StyleAudit.Proofs.Json.RoundTrip
import StyleAudit.Proofs.Report.RoundTrip
import StyleAudit.Proofs.Manifest.Init
import StyleAudit.Proofs.Manifest.Conservative
import StyleAudit.Proofs.Command.Failure
import StyleAudit.Proofs.Command.Again
import StyleAudit.Proofs.Markup.Bounds
import StyleAudit.Proofs.Stylesheet.Imports
import StyleAudit.Proofs.Audit.Run
import StyleAudit.Proofs.Audit.Positions
import StyleAudit.Proofs.Audit.Relocation
import StyleAudit.Proofs.Audit.RootUses
import StyleAudit.Proofs.Audit.Unchanged
import StyleAudit.Proofs.Analysis.Duplicates
import StyleAudit.Proofs.Path.Common
import StyleAudit.Proofs.Path.Spellings
import StyleAudit.Proofs.Store.Listing
import StyleAudit.Proofs.Report.Unambiguous
import StyleAudit.Proofs.Config.Spellings
