import YnabAgent.Domain.StateMachine
import YnabAgent.Workflow.Activities

/-!
# The events the driver builds

The per-state steps of the driver (`workflow/txn_workflow.py`) turn an inbound, a timer or the
outcome of an activity into the next event. `driverEvent` collects them: it is defined on the pairs
of a state and an input the driver awaits there, and fails where the activity itself fails.
-/

namespace YnabAgent

def isAmazon (text : PyText) (payee : String) : Bool := isInText "amazon" (text.lower payee)

/-- Amazon-ish and no memo yet. -/
def holdForAmazon (text : PyText) (snapshot : YnabSnapshot) : Bool :=
  isAmazon text snapshot.payee && !snapshot.hasMemo text

def materialized (text : PyText) (snapshot : YnabSnapshot) : LifecycleEvent :=
  .snapshotMaterialized snapshot (holdForAmazon text snapshot)

/-- The fetch of the snapshot: found, or the signal beat the poll. -/
def fetchedEvent (text : PyText) (snapshot? : Option YnabSnapshot) : LifecycleEvent :=
  match snapshot? with
  | some snapshot => materialized text snapshot
  | none => .snapshotUnavailable

def replyEvent : ReplyOutcome → LifecycleEvent
  | .answer decision => .answerReceived decision
  | .clarify question => .clarifyRequested question

theorem replyEvent_event (outcome : ReplyOutcome) :
    (∃ decision, replyEvent outcome = .answerReceived decision) ∨
      ∃ question, replyEvent outcome = .clarifyRequested question := by
  cases outcome with
  | answer decision => exact .inl ⟨decision, rfl⟩
  | clarify question => exact .inr ⟨question, rfl⟩

/-- The owner's live choice, as the decision an override carries. -/
def overrideDecision (read : TargetState) (now : Datetime) : Decision :=
  { allocation := read.allocation, memo := read.memo, approved := read.approved,
    decidedBy := .human, decidedAt := now }

/-- At archive time: an out-of-band recategorization, or the ordinary archive event. -/
def archiveOrOverride (decision : Decision) (read : Option TargetState) (now : Datetime) :
    LifecycleEvent :=
  match read with
  | some read =>
    if read.allocation ≠ decision.allocation then .overrideDetected (overrideDecision read now)
    else .archiveWindowReached
  | none => .archiveWindowReached

theorem archiveOrOverride_event (decision : Decision) (target? : Option TargetState)
    (now : Datetime) : archiveOrOverride decision target? now = .archiveWindowReached ∨
      ∃ choice, archiveOrOverride decision target? now = .overrideDetected choice := by
  unfold archiveOrOverride
  split
  · split
    · exact .inr ⟨_, rfl⟩
    · exact .inl rfl
  · exact .inl rfl

/-- The event of an archive time is none but these. -/
theorem archiveOrOverride_ne {event : LifecycleEvent} (harchive : event ≠ .archiveWindowReached)
    (hoverride : ∀ choice, event ≠ .overrideDetected choice) (decision : Decision)
    (target? : Option TargetState) (now : Datetime) :
    event ≠ archiveOrOverride decision target? now := by
  rcases archiveOrOverride_event decision target? now with heq | ⟨choice, heq⟩
  · rw [heq]; exact harchive
  · rw [heq]; exact hoverride choice

/-- What the gate reads when a transaction is enriched. -/
structure EnrichInputs where
  candidates : List CandidateCategory
  propose : EnrichmentRequest → EnrichmentSuggestion
  rules : List Rule
  counters : AutoActionCounters
  now : Datetime

/-- What a reply is interpreted with. -/
structure InterpretInputs where
  interpret : InterpretRequest → Interpretation
  candidates : List CandidateCategory
  signal : InboundSignal
  now : Datetime

/-- What ends the wait of a step: an inbound, a snapshot signal, a timer, or an activity with what
it read. -/
inductive DriverInput
  | inbound (signal : InboundSignal)
  | snapshotSignal (snapshot : YnabSnapshot)
  | deadline
  | fetched (backend : YnabBackend)
  | enriched (inputs : EnrichInputs)
  | interpreted (inputs : InterpretInputs)
  | readBack (backend : YnabBackend)
  | converged (inputs : ConvergeInputs)

section driver
variable (text : PyText) {δ : Type} [DecidableEq δ] (digest : TargetState → δ)

def driverEvent (ynabId : YnabTransactionId) (now : Datetime) (txn : Transaction)
    (input : DriverInput) : Except ActivityFailure (Option LifecycleEvent) :=
  match txn, input with
  | .discovered _, .fetched backend =>
    (fun snapshot? => some (fetchedEvent text snapshot?)) <$> backend.snapshot text ynabId
  | .discovered _, .snapshotSignal snapshot => .ok (some (materialized text snapshot))
  | .discovered _, .inbound signal => .ok (some (.inboundReceived signal))
  | .holdAmazon _, .deadline => .ok (some .holdDeadlineReached)
  | .holdAmazon _, .snapshotSignal snapshot => .ok (some (.holdResolved snapshot))
  | .holdAmazon _, .inbound signal => .ok (some (.inboundReceived signal))
  | .enriching s, .enriched inputs =>
    (fun outcome => some (.enriched outcome)) <$>
      decideEnrichment text inputs.propose s.core.snapshot inputs.candidates inputs.rules
        inputs.counters inputs.now
  | .autoApplied s, .readBack backend =>
    (fun read => some (.writeVerified (classifyVerify digest read (targetOf s.decision)))) <$>
      backend.readBack text ynabId
  | .applied s, .readBack backend =>
    (fun read => some (.writeVerified (classifyVerify digest read (targetOf s.decision)))) <$>
      backend.readBack text ynabId
  | .awaitingHuman _, .deadline => .ok (some .patienceExpired)
  | .awaitingHuman s, .interpreted inputs =>
    (fun outcome => some (replyEvent outcome)) <$>
      interpretInbound text inputs.interpret inputs.candidates inputs.now inputs.signal
        s.core.snapshot s.proposal
  | .opened _, .inbound signal => .ok (some (.inboundReceived signal))
  | .opened s, .readBack backend =>
    (fun read => some (archiveOrOverride s.decision read now)) <$> backend.readBack text ynabId
  | .lapsed _, .inbound signal => .ok (some (.inboundReceived signal))
  | .lapsed _, .deadline => .ok (some .archiveWindowReached)
  | .revising s, .converged inputs =>
    (fun outcome => some (.converged outcome)) <$>
      converge text digest s.core.snapshot s.instruction s.prior inputs
  | _, _ => .ok none

end driver

end YnabAgent
