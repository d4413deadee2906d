import YnabAgent.Workflow.Admissible
import YnabAgent.Domain.Provenance
import YnabAgent.Learn.Registry
import YnabAgent.Learn.Folds
import YnabAgent.Learn.Grants
import YnabAgent.Learn.Evidence
import YnabAgent.Learn.Consent
import YnabAgent.Workflow.Offers
import YnabAgent.Join.Match
import YnabAgent.Join.Store
import YnabAgent.Lib.Latch
import YnabAgent.Workflow.ReceiptJoins
import YnabAgent.Workflow.Driver
import YnabAgent.Workflow.Inbounds
import YnabAgent.Workflow.Calls
import YnabAgent.Lib.Outbox
import YnabAgent.Lib.Tally
import YnabAgent.Mail.Client
import YnabAgent.Workflow.Messages
import YnabAgent.Lib.Admission
import YnabAgent.Workflow.Fleet
import YnabAgent.Agentic.Ratchet
import YnabAgent.Lib.Canonical
import YnabAgent.Policy.Comparison
import YnabAgent.Ynab.Patch
import YnabAgent.Ynab.ReadBack
import YnabAgent.Workflow.Archive
import YnabAgent.Workflow.MemoRevision
import YnabAgent.Workflow.Confirmations
import YnabAgent.Workflow.Decisions
import YnabAgent.Workflow.Live
import YnabAgent.Workflow.Guard
import YnabAgent.Ingest.Plan
import YnabAgent.Workflow.Approvals
import YnabAgent.Workflow.FreshRun
import YnabAgent.Budget.Overspend
import YnabAgent.Policy.Ruling
import YnabAgent.Budget.Balance
import YnabAgent.Lib.Spans
import YnabAgent.Ynab.Budget
import YnabAgent.Budget.Coverage
import YnabAgent.Budget.Donors
import YnabAgent.Budget.Recipients
import YnabAgent.Workflow.BalanceActivities
import YnabAgent.Workflow.MonitorActivities
import YnabAgent.Budget.Message
import YnabAgent.Budget.Ledger
import YnabAgent.Mail.Alerts
import YnabAgent.Workflow.Monitor
import YnabAgent.Workflow.Balance
import YnabAgent.Workflow.Categories
import YnabAgent.Learn.Revocation
import YnabAgent.Learn.Duplicates
import YnabAgent.Learn.FreshOffer
import YnabAgent.Learn.PayeePatterns
import YnabAgent.Learn.Consistency
import YnabAgent.Workflow.ReceiptFold
import YnabAgent.Workflow.ContinueAsNew
import YnabAgent.Domain.Writes
import YnabAgent.Workflow.Prompts
import YnabAgent.Workflow.Commands
import YnabAgent.Alert.Ledger
import YnabAgent.Workflow.FailureAlerts
import YnabAgent.Budget.Flagged
import YnabAgent.Budget.LaterDay
import YnabAgent.Budget.Drain
import YnabAgent.Lib.Overwrites
import YnabAgent.Policy.Shares
import YnabAgent.Workflow.Targets
import YnabAgent.Lib.Trim
import YnabAgent.Policy.Reordering
import YnabAgent.Domain.MemoFold
import YnabAgent.Workflow.DirectFold
import YnabAgent.Policy.Histories
import YnabAgent.Workflow.ReceiptTable
import YnabAgent.Join.Pool
import YnabAgent.Workflow.Timers
import YnabAgent.Workflow.Progress
import YnabAgent.Agentic.ReceiptParse
import YnabAgent.Agentic.Renderings
import YnabAgent.Mail.Html
import YnabAgent.Workflow.Autonomy
import YnabAgent.Workflow.Poll
import YnabAgent.Workflow.ReceiptMatches
import YnabAgent.Agentic.Compose
import YnabAgent.Workflow.ReceiptMail
import YnabAgent.Learn.Audit
import YnabAgent.Workflow.Instructions
import YnabAgent.Workflow.MonthPlans
