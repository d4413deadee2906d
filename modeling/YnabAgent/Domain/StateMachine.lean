import YnabAgent.Domain.Lifecycle

/-!
# The lifecycle state machine

`advance` takes a transaction, a decided event, the time and the timer policy to the next
transaction and the effects the spine executes (`domain/state_machine.py`). One handler per state;
an event a state does not expect is `rejected`. A handler that constructs a validating state can
fail with that state's validation error, so it and `advance` return in `Except`.
-/

namespace YnabAgent

/-! ## Transitions -/

inductive TransitionKind
  | advanced | ignored | rejected
  deriving DecidableEq, Repr

structure Transition where
  kind : TransitionKind
  next : Transaction
  effects : List Effect := []
  reason : Option String := none

def advanced (next : Transaction) (effects : List Effect) : Transition :=
  { kind := .advanced, next, effects }

def ignored (txn : Transaction) (reason : String) : Transition :=
  { kind := .ignored, next := txn, reason := some reason }

def rejected (txn : Transaction) (event : LifecycleEvent) : Transition :=
  { kind := .rejected
    next := txn
    reason := some (event.typeName ++ " is not valid in " ++ txn.state.value) }

section handlers
variable (now : Datetime) (policy : LifecyclePolicy)

/-! ## Before the write -/

/-- The replay of the signals buffered before the snapshot, if there are any. -/
def replayPending (pending : List InboundSignal) : List Effect :=
  if pending = [] then [] else [.replayBuffered pending]

/-- A reply in `DISCOVERED` lends the transaction its thread. -/
def adoptThread (threadId : Option ThreadId) : InboundSignal → Option ThreadId
  | .reply sig => threadId.or (some sig.threadId)
  | .receipt _ => threadId

def fromDiscovered (txn : Discovered) (event : LifecycleEvent) : Transition :=
  match event with
  | .snapshotMaterialized snapshot hold =>
    let core : TxnCore := { snapshot, threadId := txn.threadId }
    if hold then
      let deadline := now + policy.amazonHold
      advanced (.holdAmazon { core, amazonDeadline := deadline })
        (.setTimer .amazonHold deadline :: replayPending txn.pending)
    else advanced (.enriching { core }) (replayPending txn.pending)
  | .snapshotUnavailable =>
    ignored (.discovered txn) "snapshot not yet in YNAB; staying DISCOVERED"
  | .inboundReceived signal =>
    advanced (.discovered
      { ynabId := txn.ynabId
        threadId := adoptThread txn.threadId signal
        pending := txn.pending ++ [signal] }) []
  | event => rejected (.discovered txn) event

def fromHoldAmazon (txn : HoldAmazon) (event : LifecycleEvent) : Transition :=
  match event with
  | .holdResolved snapshot =>
    advanced (.enriching { core := { txn.core with snapshot } }) [.cancelTimer .amazonHold]
  | .holdDeadlineReached => advanced (.enriching { core := txn.core }) []
  | .inboundReceived signal =>
    advanced (.enriching { core := txn.core })
      [.cancelTimer .amazonHold, .replayBuffered [signal]]
  | event => rejected (.holdAmazon txn) event

/-- First contact opens the thread with the proposal; a re-proposal replies on it. -/
def proposalEffect (core : TxnCore) : Effect :=
  if core.threadId = none then .openThread else .sendThreadMessage .proposal none none

def fromEnriching (txn : Enriching) (event : LifecycleEvent) :
    Except ValidationError Transition :=
  match event with
  | .enriched (.autoApply decision) => do
    let next ← AutoApplied.make txn.core decision
    pure (advanced (.autoApplied next)
      [.commitToYnab decision, .recordAutoAction txn.core.snapshot.ynabId])
  | .enriched (.askHuman proposal) =>
    let deadline := now + policy.patienceWindow
    pure (advanced
      (.awaitingHuman { core := txn.core, proposal := some proposal, patienceDeadline := deadline })
      [proposalEffect txn.core, .setTimer .patience deadline])
  | .inboundReceived signal => pure (advanced (.enriching txn) [.replayBuffered [signal]])
  | event => pure (rejected (.enriching txn) event)

/-! ## Verification of a write -/

/-- A verify failure goes to a flagged `AWAITING_HUMAN` with a read-back. -/
def enterFlaggedAwaiting (core : TxnCore) (flag : AwaitingFlag) (message : MessagePurpose)
    (detail : Option String) (decision : Option Decision) : Transition :=
  let deadline := now + policy.patienceWindow
  advanced (.awaitingHuman { core, patienceDeadline := deadline, flag })
    [.sendThreadMessage message detail decision, .setTimer .patience deadline]

def resolveWriteVerify (core : TxnCore) (decision : Decision) (outcome : VerifyOutcome)
    (appliedMessage : MessagePurpose) (learning : Option RuleLearningKind) :
    Except ValidationError Transition :=
  match outcome with
  | .match => do
    let feed : List Effect :=
      match learning with
      | some kind =>
        [.feedRuleLearning
          { event := kind, payee := core.snapshot.payee, decision := some decision }]
      | none => []
    let next ← Open.make core decision
    pure (advanced (.opened next)
      (feed ++ [.sendThreadMessage appliedMessage none (some decision),
        .setTimer .archive (now + policy.archiveWindow)]))
  | .couldNotConfirm =>
    pure (enterFlaggedAwaiting now policy core .possiblyInconsistent .possiblyInconsistent none
      (some decision))
  | .diverged =>
    pure (enterFlaggedAwaiting now policy core .diverged .divergedReadback none (some decision))

def fromAutoApplied (txn : AutoApplied) (event : LifecycleEvent) :
    Except ValidationError Transition :=
  match event with
  | .writeVerified outcome =>
    resolveWriteVerify now policy txn.core txn.decision outcome .fyi none
  | event => pure (rejected (.autoApplied txn) event)

def fromApplied (txn : Applied) (event : LifecycleEvent) : Except ValidationError Transition :=
  match event with
  | .writeVerified outcome =>
    resolveWriteVerify now policy txn.core txn.decision outcome .confirm (some .confirm)
  | event => pure (rejected (.applied txn) event)

/-! ## Waiting for the human -/

def fromAwaitingHuman (txn : AwaitingHuman) (event : LifecycleEvent) :
    Except ValidationError Transition :=
  match event with
  | .answerReceived decision => do
    let next ← Applied.make txn.core decision
    pure (advanced (.applied next) [.commitToYnab decision, .cancelTimer .patience])
  | .clarifyRequested question =>
    let deadline := now + policy.patienceWindow
    pure (advanced
      (.awaitingHuman { txn with patienceDeadline := deadline })
      [.sendThreadMessage .clarify (some question) none, .setTimer .patience deadline])
  | .patienceExpired =>
    if txn.flag ≠ .none then
      pure (ignored (.awaitingHuman txn) "flagged entry does not lapse (SPEC §3)")
    else
      pure (advanced (.lapsed { core := txn.core, proposal := txn.proposal })
        [.sendThreadMessage .handoff none none, .setTimer .archive (now + policy.archiveWindow)])
  | .inboundReceived signal => pure (advanced (.awaitingHuman txn) [.replayBuffered [signal]])
  | event => pure (rejected (.awaitingHuman txn) event)

/-! ## Resting states -/

def fromOpen (txn : Open) (event : LifecycleEvent) : Except ValidationError Transition :=
  match event with
  | .inboundReceived signal =>
    pure (advanced
      (.revising { core := txn.core, instruction := signal, origin := .applied,
                   prior := some txn.decision })
      [.cancelTimer .archive])
  | .archiveWindowReached =>
    if !txn.core.snapshot.reconciled then
      pure (ignored (.opened txn) "not reconciled yet; staying OPEN")
    else do
      let next ← Archived.make txn.core (some txn.decision)
      pure (advanced (.archived next) [.closeThread])
  | .overrideDetected humanDecision => do
    let demote := Effect.feedRuleLearning
      { event := .correct, payee := txn.core.snapshot.payee, decision := some humanDecision,
        prior := some txn.decision }
    let notice := Effect.sendThreadMessage .overrideNotice none (some humanDecision)
    if !txn.core.snapshot.reconciled then
      let next ← Open.make txn.core humanDecision
      pure (advanced (.opened next) [demote, notice])
    else
      let next ← Archived.make txn.core (some humanDecision)
      pure (advanced (.archived next) [demote, notice, .closeThread])
  | event => pure (rejected (.opened txn) event)

def fromLapsed (txn : Lapsed) (event : LifecycleEvent) : Except ValidationError Transition :=
  match event with
  | .inboundReceived signal =>
    pure (advanced (.revising { core := txn.core, instruction := signal, origin := .lapsed })
      [.cancelTimer .archive])
  | .archiveWindowReached =>
    if !txn.core.snapshot.reconciled then
      pure (ignored (.lapsed txn) "not reconciled yet; staying LAPSED")
    else if !txn.core.snapshot.categorized then
      pure { kind := .advanced
             next := .lapsed txn
             effects := [.sendThreadMessage .archiveNotice none none]
             reason := some "uncategorized; warned before archiving (SPEC §3)" }
    else do
      let next ← Archived.make txn.core none
      pure (advanced (.archived next) [.closeThread])
  | event => pure (rejected (.lapsed txn) event)

/-! ## Revising -/

/-- Whether a re-application changes the allocation of the decision it overturns. -/
def isCorrection (prior : Option Decision) (decision : Decision) : Bool :=
  match prior with
  | some p => decide (p.allocation ≠ decision.allocation)
  | none => false

/-- What a re-application feeds to rule learning. -/
def reapplyFeed (txn : Revising) (decision : Decision) : FeedRuleLearning :=
  if isCorrection txn.prior decision then
    { event := .correct, payee := txn.core.snapshot.payee, decision := some decision,
      prior := txn.prior }
  else { event := .confirm, payee := txn.core.snapshot.payee, decision := some decision }

def reapply (txn : Revising) (decision : Decision) : Except ValidationError Transition := do
  let next ← Open.make txn.core decision
  pure (advanced (.opened next)
    [.feedRuleLearning (reapplyFeed txn decision),
      .sendThreadMessage .reviseSummary none (some decision),
      .setTimer .archive (now + policy.archiveWindow)])

/-- Already applied goes back to `OPEN`; entered from `LAPSED` it waits for the human again. -/
def resolveNoChange (txn : Revising) : Except ValidationError Transition :=
  match txn.origin, txn.prior with
  | .applied, some prior => do
    let next ← Open.make txn.core prior
    pure (advanced (.opened next) [.setTimer .archive (now + policy.archiveWindow)])
  | _, _ =>
    let deadline := now + policy.patienceWindow
    pure (advanced (.awaitingHuman { core := txn.core, patienceDeadline := deadline })
      [.setTimer .patience deadline])

/-- The question a divergence puts to the owner. -/
def divergedDetail (ynabSummary requestedSummary : String) : String :=
  "YNAB now shows " ++ ynabSummary ++ ", but your reply asked for " ++ requestedSummary
    ++ " — which should win? Reply with your choice and I'll set it."

def fromRevising (txn : Revising) (event : LifecycleEvent) : Except ValidationError Transition :=
  match event with
  | .converged (.reapplied decision) => reapply now policy txn decision
  | .converged .noChange => resolveNoChange now policy txn
  | .converged .couldNotConfirm =>
    pure (enterFlaggedAwaiting now policy txn.core .possiblyInconsistent .possiblyInconsistent
      none none)
  | .converged (.diverged ynab asked) =>
    pure (enterFlaggedAwaiting now policy txn.core .diverged .divergedReadback
      (some (divergedDetail ynab asked)) none)
  | .converged (.needsHuman reason) =>
    let deadline := now + policy.patienceWindow
    pure (advanced (.awaitingHuman { core := txn.core, patienceDeadline := deadline })
      [.sendThreadMessage .clarify (some reason) none, .setTimer .patience deadline])
  | .inboundReceived signal =>
    pure (advanced (.revising { txn with instruction := signal }) [.replayBuffered [signal]])
  | event => pure (rejected (.revising txn) event)

def fromArchived (txn : Archived) (event : LifecycleEvent) : Transition :=
  rejected (.archived txn) event

/-! ## The machine -/

/-- Advance a transaction by one event. -/
def advance (txn : Transaction) (event : LifecycleEvent) : Except ValidationError Transition :=
  match txn with
  | .discovered s => pure (fromDiscovered now policy s event)
  | .holdAmazon s => pure (fromHoldAmazon s event)
  | .enriching s => fromEnriching now policy s event
  | .autoApplied s => fromAutoApplied now policy s event
  | .awaitingHuman s => fromAwaitingHuman now policy s event
  | .applied s => fromApplied now policy s event
  | .opened s => fromOpen s event
  | .lapsed s => fromLapsed s event
  | .revising s => fromRevising now policy s event
  | .archived s => pure (fromArchived s event)

end handlers

end YnabAgent
