import ItemBudget.Budget.Basic
import ItemBudget.Budget.Config
import ItemBudget.Decimal.Basic
import ItemBudget.Decimal.Binary
import ItemBudget.Decimal.Cost
import ItemBudget.Decimal.Layout
import ItemBudget.Decimal.Numeral
import ItemBudget.Decimal.Reader
import ItemBudget.Decimal.Shortest
import ItemBudget.Definition.Attribute
import ItemBudget.Definition.Basic
import ItemBudget.Definition.Blob
import ItemBudget.Definition.Error
import ItemBudget.Definition.FileTree
import ItemBudget.Definition.Formula
import ItemBudget.Definition.Text
import ItemBudget.Document.Budget
import ItemBudget.Document.Definition
import ItemBudget.Document.Item
import ItemBudget.Document.Journal
import ItemBudget.Document.View
import ItemBudget.Document.Workshop
import ItemBudget.Formula.Basic
import ItemBudget.Formula.Expr
import ItemBudget.Formula.Fault
import ItemBudget.Formula.Parser
import ItemBudget.Formula.Printer
import ItemBudget.Formula.Token
import ItemBudget.Item.Basic
import ItemBudget.Item.EquipClass
import ItemBudget.Journal.Export
import ItemBudget.Journal.History
import ItemBudget.Journal.Query
import ItemBudget.Journal.Record
import ItemBudget.Journal.Report
import ItemBudget.Json.Document
import ItemBudget.Json.Node
import ItemBudget.Json.Number
import ItemBudget.Json.Reader
import ItemBudget.Json.Value
import ItemBudget.Json.Writer
import ItemBudget.Proofs.Budget.BoundOrder
import ItemBudget.Proofs.Budget.Finite
import ItemBudget.Proofs.Budget.Inputs
import ItemBudget.Proofs.Budget.Prices
import ItemBudget.Proofs.Budget.Remaining
import ItemBudget.Proofs.Budget.Rules
import ItemBudget.Proofs.Budget.Validation
import ItemBudget.Proofs.Definition.Acceptance
import ItemBudget.Proofs.Definition.Blob
import ItemBudget.Proofs.Definition.Charge
import ItemBudget.Proofs.Definition.Directory
import ItemBudget.Proofs.Definition.Dispatch
import ItemBudget.Proofs.Definition.Entries
import ItemBudget.Proofs.Definition.Growth
import ItemBudget.Proofs.Definition.Lists
import ItemBudget.Proofs.Definition.Order
import ItemBudget.Proofs.Definition.Paths
import ItemBudget.Proofs.Definition.Splitting
import ItemBudget.Proofs.Definition.Tables
import ItemBudget.Proofs.Document.Config
import ItemBudget.Proofs.Document.Stored
import ItemBudget.Proofs.Double.Arithmetic
import ItemBudget.Proofs.Double.Closeness
import ItemBudget.Proofs.Double.Costs
import ItemBudget.Proofs.Double.Differences
import ItemBudget.Proofs.Double.Digits
import ItemBudget.Proofs.Double.Finite
import ItemBudget.Proofs.Double.Hundredths
import ItemBudget.Proofs.Double.Nearby
import ItemBudget.Proofs.Double.Nearest
import ItemBudget.Proofs.Double.Order
import ItemBudget.Proofs.Double.Packing
import ItemBudget.Proofs.Double.Range
import ItemBudget.Proofs.Double.Rounding
import ItemBudget.Proofs.Double.Shortest
import ItemBudget.Proofs.Double.Signed
import ItemBudget.Proofs.Double.Sums
import ItemBudget.Proofs.Double.Text
import ItemBudget.Proofs.Double.Zero
import ItemBudget.Proofs.Formula.Acceptance
import ItemBudget.Proofs.Formula.Evaluation
import ItemBudget.Proofs.Formula.Grammar
import ItemBudget.Proofs.Formula.Layout
import ItemBudget.Proofs.Formula.Lexing
import ItemBudget.Proofs.Formula.Limits
import ItemBudget.Proofs.Formula.Mistake
import ItemBudget.Proofs.Formula.Nodes
import ItemBudget.Proofs.Formula.Normal
import ItemBudget.Proofs.Formula.Prefix
import ItemBudget.Proofs.Formula.Reading
import ItemBudget.Proofs.Formula.Written
import ItemBudget.Proofs.Journal.Increases
import ItemBudget.Proofs.Journal.Lines
import ItemBudget.Proofs.Journal.Report
import ItemBudget.Proofs.Journal.Tail
import ItemBudget.Proofs.Json.Numbers
import ItemBudget.Proofs.Json.Numerals
import ItemBudget.Proofs.Json.Reread
import ItemBudget.Proofs.Json.Written
import ItemBudget.Proofs.Outcome
import ItemBudget.Proofs.RateLimit.Burst
import ItemBudget.Proofs.RateLimit.Clients
import ItemBudget.Proofs.RateLimit.Refill
import ItemBudget.Proofs.RateLimit.Run
import ItemBudget.Proofs.RateLimit.Safety
import ItemBudget.Proofs.RateLimit.Sweeping
import ItemBudget.Proofs.RateLimit.Waiting
import ItemBudget.Proofs.Table
import ItemBudget.Proofs.Time.Seconds
import ItemBudget.Proofs.Workshop.Frame
import ItemBudget.Proofs.Workshop.Items
import ItemBudget.Proofs.Workshop.Ledger
import ItemBudget.Proofs.Workshop.Limiting
import ItemBudget.Proofs.Workshop.Numbers
import ItemBudget.Proofs.Workshop.Refusal
import ItemBudget.Proofs.Workshop.Run
import ItemBudget.Proofs.Workshop.Start
import ItemBudget.Proofs.Workshop.Steps
import ItemBudget.Proofs.Workshop.Story
import ItemBudget.Proofs.Workshop.Validity
import ItemBudget.RateLimit.Bucket
import ItemBudget.RateLimit.Limit
import ItemBudget.RateLimit.Limiter
import ItemBudget.Ron.Attribute
import ItemBudget.Ron.Document
import ItemBudget.Ron.Lexeme
import ItemBudget.Ron.Literal
import ItemBudget.Ron.Node
import ItemBudget.Ron.Number
import ItemBudget.Ron.Reader
import ItemBudget.Ron.Writer
import ItemBudget.Table
import ItemBudget.Text.Blank
import ItemBudget.Text.Class
import ItemBudget.Text.Search
import ItemBudget.Text.Taken
import ItemBudget.Time.Calendar
import ItemBudget.Time.Duration
import ItemBudget.Time.Instant
import ItemBudget.Time.Reader
import ItemBudget.Workshop.Basic
import ItemBudget.Workshop.Error
import ItemBudget.Workshop.Settings
import ItemBudget.Workshop.Store
