import YnabAgent.Lib.Basic
import YnabAgent.Domain.Allocation
import YnabAgent.Domain.Receipt

/-!
# The transaction and its lifecycle states

Signals, proposals and decisions (`domain/signals.py`, `domain/proposal.py`) and the union of the
ten lifecycle states (`domain/transaction.py`). A state whose validator the source runs at
construction carries what the validator checks as a field, and its `make` is the construction: it
returns the state or the error the validator raises.
-/

namespace YnabAgent

/-! ## Signals -/

/-- A human reply landing on a transaction's thread. -/
structure ReplySignal where
  threadId : ThreadId
  messageId : MessageId
  fromAddress : String
  text : String
  deriving DecidableEq

/-- A receipt the join matched to this transaction. -/
structure ReceiptSignal where
  receiptId : ReceiptId
  receipt : Receipt
  deriving DecidableEq

inductive InboundSignal
  | reply (signal : ReplySignal)
  | receipt (signal : ReceiptSignal)
  deriving DecidableEq

/-! ## Proposals and decisions -/

structure ProposalSource where
  kind : SourceKind
  detail : Option String := none
  deriving DecidableEq

structure Proposal where
  allocation : ProposedAllocation
  memo : Option String := none
  confidence : Confidence
  rationale : String
  sources : List ProposalSource := []
  alternatives : List CategoryId := []
  deriving DecidableEq

structure Decision where
  allocation : ResolvedAllocation
  memo : Option String := none
  approved : Bool
  decidedBy : DecidedBy
  decidedAt : Datetime
  ruleId : Option RuleId := none
  deriving DecidableEq

/-! ## Snapshots -/

structure YnabSnapshot where
  ynabId : YnabTransactionId
  account : AccountId
  payee : String
  payeeId : Option PayeeId := none
  amount : Money
  txnDate : Date
  postedAt : Option Datetime := none
  memo : Option String := none
  flag : Option FlagColor := none
  categoryId : Option CategoryId := none
  cleared : ClearedState := .uncleared
  approved : Bool := false
  monthClosed : Bool := false
  importId : Option ImportId := none
  matchedTransactionId : Option YnabTransactionId := none
  subtransactions : List ResolvedSplitLine := []
  deriving DecidableEq

namespace YnabSnapshot

def reconciled (snap : YnabSnapshot) : Bool := decide (snap.cleared = .reconciled)

def categorized (snap : YnabSnapshot) : Bool := snap.categoryId.isSome

def hasMemo (text : PyText) (snap : YnabSnapshot) : Bool :=
  match snap.memo with
  | some memo => decide (text.strip memo ≠ "")
  | none => false

def isMatchedImport (snap : YnabSnapshot) : Bool := snap.matchedTransactionId.isSome

end YnabSnapshot

/-- The data common to every state after the snapshot. -/
structure TxnCore where
  snapshot : YnabSnapshot
  threadId : Option ThreadId := none
  receiptIds : List ReceiptId := []
  auditLogRef : Option String := none
  deriving DecidableEq

/-! ## What a written state requires -/

/-- What a validator raises. -/
structure ValidationError where
  message : String
  deriving DecidableEq, Repr

/-- The invariant of every post-write state: an approved decision, and a split that sums to the
transaction amount. -/
structure Committed (core : TxnCore) (decision : Decision) : Prop where
  approved : decision.approved = true
  balanced : ∀ {split}, decision.allocation = .split split → split.total = core.snapshot.amount

def ensureCommitted (core : TxnCore) (decision : Decision) :
    Except ValidationError (PLift (Committed core decision)) :=
  if happr : decision.approved = true then
    match halloc : decision.allocation with
    | .split split =>
      if htotal : split.total = core.snapshot.amount then
        .ok ⟨happr, fun h => by rw [halloc] at h; cases h; exact htotal⟩
      else .error ⟨"split lines must sum to the transaction amount"⟩
    | .category _ _ => .ok ⟨happr, fun h => by rw [halloc] at h; cases h⟩
  else .error ⟨"a post-write state requires an approved decision"⟩

theorem ensureCommitted_eq_ok {core : TxnCore} {decision : Decision}
    (h : Committed core decision) : ensureCommitted core decision = .ok ⟨h⟩ := by
  unfold ensureCommitted
  rw [dif_pos h.approved]
  obtain ⟨allocation, memo, approved, decidedBy, decidedAt, ruleId⟩ := decision
  cases allocation with
  | category category personTag => rfl
  | split split => exact dif_pos (h.balanced rfl)

/-- The validator reads only the snapshot, so a thread id can be stamped on a written state. -/
theorem Committed.withThread {core : TxnCore} {decision : Decision} (h : Committed core decision)
    (tid : Option ThreadId) : Committed { core with threadId := tid } decision :=
  ⟨h.approved, h.balanced⟩

/-! ## The lifecycle states -/

/-- Born, snapshot possibly not yet polled; buffers signals until it is. -/
structure Discovered where
  ynabId : YnabTransactionId
  threadId : Option ThreadId := none
  pending : List InboundSignal := []

/-- An Amazon transaction with an empty memo, held for detail. -/
structure HoldAmazon where
  core : TxnCore
  amazonDeadline : Datetime

structure Enriching where
  core : TxnCore
  proposal : Option Proposal := none

/-- Written by the agent under a blessed rule, not yet verified. -/
structure AutoApplied where
  core : TxnCore
  decision : Decision
  byAgent : decision.decidedBy = .agent
  committed : Committed core decision

structure AwaitingHuman where
  core : TxnCore
  patienceDeadline : Datetime
  proposal : Option Proposal := none
  flag : AwaitingFlag := .none

/-- Written via the thread, not yet verified. -/
structure Applied where
  core : TxnCore
  decision : Decision
  committed : Committed core decision

/-- The resting state after a verified write. -/
structure Open where
  core : TxnCore
  decision : Decision
  committed : Committed core decision

structure Lapsed where
  core : TxnCore
  proposal : Option Proposal := none

/-- One converge-to-target run; the newest instruction wins. -/
structure Revising where
  core : TxnCore
  instruction : InboundSignal
  origin : RevisingOrigin
  prior : Option Decision := none

/-- Terminal. An archive of a transaction that was never applied also requires a category. -/
structure Archived where
  core : TxnCore
  final : Option Decision := none
  reconciled : core.snapshot.reconciled = true
  categorized : final = none → core.snapshot.categorized = true

/-! ## Construction of the states that validate -/

def AutoApplied.make (core : TxnCore) (decision : Decision) : Except ValidationError AutoApplied :=
  if h : decision.decidedBy = .agent then do
    let hc ← ensureCommitted core decision
    pure ⟨core, decision, h, hc.down⟩
  else .error ⟨"AUTO_APPLIED requires an agent decision"⟩

def Applied.make (core : TxnCore) (decision : Decision) : Except ValidationError Applied := do
  let hc ← ensureCommitted core decision
  pure ⟨core, decision, hc.down⟩

def Open.make (core : TxnCore) (decision : Decision) : Except ValidationError Open := do
  let hc ← ensureCommitted core decision
  pure ⟨core, decision, hc.down⟩

def Archived.make (core : TxnCore) (final : Option Decision) : Except ValidationError Archived :=
  if hr : core.snapshot.reconciled = true then
    if hf : final = none → core.snapshot.categorized = true then .ok ⟨core, final, hr, hf⟩
    else .error ⟨"an unapplied ARCHIVED requires a categorized snapshot"⟩
  else .error ⟨"ARCHIVED requires a reconciled snapshot"⟩

section make
variable {core : TxnCore} {decision : Decision}

theorem Open.make_eq_ok (h : Committed core decision) :
    Open.make core decision = .ok ⟨core, decision, h⟩ := by
  unfold Open.make
  rw [ensureCommitted_eq_ok h]
  rfl

theorem Applied.make_eq_ok (h : Committed core decision) :
    Applied.make core decision = .ok ⟨core, decision, h⟩ := by
  unfold Applied.make
  rw [ensureCommitted_eq_ok h]
  rfl

theorem AutoApplied.make_eq_ok (ha : decision.decidedBy = .agent) (h : Committed core decision) :
    AutoApplied.make core decision = .ok ⟨core, decision, ha, h⟩ := by
  unfold AutoApplied.make
  rw [dif_pos ha, ensureCommitted_eq_ok h]
  rfl

theorem Archived.make_eq_ok {final : Option Decision} (hr : core.snapshot.reconciled = true)
    (hf : final = none → core.snapshot.categorized = true) :
    Archived.make core final = .ok ⟨core, final, hr, hf⟩ := by
  unfold Archived.make
  rw [dif_pos hr, dif_pos hf]

/-- What a construction returns is a state over its own arguments. -/
theorem Open.of_make {s : Open} (h : Open.make core decision = .ok s) :
    s.core = core ∧ s.decision = decision := by
  obtain ⟨hc, -, h⟩ := Lib.bind_eq_ok h
  cases h
  exact ⟨rfl, rfl⟩

theorem Applied.of_make {s : Applied} (h : Applied.make core decision = .ok s) :
    s.core = core ∧ s.decision = decision := by
  obtain ⟨hc, -, h⟩ := Lib.bind_eq_ok h
  cases h
  exact ⟨rfl, rfl⟩

theorem AutoApplied.of_make {s : AutoApplied} (h : AutoApplied.make core decision = .ok s) :
    s.core = core ∧ s.decision = decision := by
  unfold AutoApplied.make at h
  split at h
  · obtain ⟨hc, -, h⟩ := Lib.bind_eq_ok h
    cases h
    exact ⟨rfl, rfl⟩
  · cases h

theorem Archived.of_make {final : Option Decision} {s : Archived}
    (h : Archived.make core final = .ok s) : s.core = core ∧ s.final = final := by
  unfold Archived.make at h
  split at h
  · split at h
    · cases h; exact ⟨rfl, rfl⟩
    · cases h
  · cases h

end make

/-! ## The union -/

inductive Transaction
  | discovered (s : Discovered)
  | holdAmazon (s : HoldAmazon)
  | enriching (s : Enriching)
  | autoApplied (s : AutoApplied)
  | awaitingHuman (s : AwaitingHuman)
  | applied (s : Applied)
  | opened (s : Open)
  | lapsed (s : Lapsed)
  | revising (s : Revising)
  | archived (s : Archived)

/-- A freshly discovered transaction. -/
def born (ynabId : YnabTransactionId) (threadId : Option ThreadId) : Transaction :=
  .discovered { ynabId, threadId }

namespace Transaction

def state : Transaction → TxnState
  | .discovered _ => .discovered
  | .holdAmazon _ => .holdAmazon
  | .enriching _ => .enriching
  | .autoApplied _ => .autoApplied
  | .awaitingHuman _ => .awaitingHuman
  | .applied _ => .applied
  | .opened _ => .open
  | .lapsed _ => .lapsed
  | .revising _ => .revising
  | .archived _ => .archived

/-- The core of every state after the snapshot. -/
def core? : Transaction → Option TxnCore
  | .discovered _ => none
  | .holdAmazon s => some s.core
  | .enriching s => some s.core
  | .autoApplied s => some s.core
  | .awaitingHuman s => some s.core
  | .applied s => some s.core
  | .opened s => some s.core
  | .lapsed s => some s.core
  | .revising s => some s.core
  | .archived s => some s.core

/-- The thread id the transaction itself carries. -/
def threadId? : Transaction → Option ThreadId
  | .discovered s => s.threadId
  | txn => txn.core?.bind (·.threadId)

/-- The state with `tid` on its core; a transaction without a core is unchanged. -/
def withThread (tid : ThreadId) : Transaction → Transaction
  | .discovered s => .discovered s
  | .holdAmazon s => .holdAmazon { s with core := { s.core with threadId := some tid } }
  | .enriching s => .enriching { s with core := { s.core with threadId := some tid } }
  | .autoApplied s =>
    .autoApplied ⟨{ s.core with threadId := some tid }, s.decision, s.byAgent,
      s.committed.withThread _⟩
  | .awaitingHuman s => .awaitingHuman { s with core := { s.core with threadId := some tid } }
  | .applied s =>
    .applied ⟨{ s.core with threadId := some tid }, s.decision, s.committed.withThread _⟩
  | .opened s =>
    .opened ⟨{ s.core with threadId := some tid }, s.decision, s.committed.withThread _⟩
  | .lapsed s => .lapsed { s with core := { s.core with threadId := some tid } }
  | .revising s => .revising { s with core := { s.core with threadId := some tid } }
  | .archived s =>
    .archived ⟨{ s.core with threadId := some tid }, s.final, s.reconciled, s.categorized⟩

theorem withThread_state (tid : ThreadId) (txn : Transaction) :
    (txn.withThread tid).state = txn.state := by
  cases txn <;> rfl

end Transaction

end YnabAgent
