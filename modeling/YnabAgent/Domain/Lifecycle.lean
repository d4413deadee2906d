import YnabAgent.Domain.Transaction

/-!
# Events, effects and the timer policy

The decided inputs of the state machine (`domain/events.py`), what it asks the spine to do
(`domain/effects.py`) and the timer windows (`domain/config.py`).
-/

namespace YnabAgent

/-! ## Outcomes carried by events -/

inductive VerifyOutcome
  | match | couldNotConfirm | diverged
  deriving DecidableEq, Repr

inductive EnrichmentOutcome
  | autoApply (decision : Decision)
  | askHuman (proposal : Proposal)
  deriving DecidableEq

inductive ConvergeOutcome
  | reapplied (decision : Decision)
  | noChange
  | couldNotConfirm
  | diverged (ynabSummary requestedSummary : String)
  | needsHuman (reason : String)
  deriving DecidableEq

/-! ## Events -/

inductive LifecycleEvent
  | snapshotMaterialized (snapshot : YnabSnapshot) (holdForAmazon : Bool)
  | snapshotUnavailable
  | inboundReceived (signal : InboundSignal)
  | holdResolved (snapshot : YnabSnapshot)
  | holdDeadlineReached
  | enriched (outcome : EnrichmentOutcome)
  | answerReceived (decision : Decision)
  | clarifyRequested (question : String)
  | patienceExpired
  | writeVerified (outcome : VerifyOutcome)
  | converged (outcome : ConvergeOutcome)
  | archiveWindowReached
  | overrideDetected (decision : Decision)
  deriving DecidableEq

/-- `type(event).__name__`. -/
def LifecycleEvent.typeName : LifecycleEvent → String
  | .snapshotMaterialized _ _ => "SnapshotMaterialized"
  | .snapshotUnavailable => "SnapshotUnavailable"
  | .inboundReceived _ => "InboundReceived"
  | .holdResolved _ => "HoldResolved"
  | .holdDeadlineReached => "HoldDeadlineReached"
  | .enriched _ => "Enriched"
  | .answerReceived _ => "AnswerReceived"
  | .clarifyRequested _ => "ClarifyRequested"
  | .patienceExpired => "PatienceExpired"
  | .writeVerified _ => "WriteVerified"
  | .converged _ => "Converged"
  | .archiveWindowReached => "ArchiveWindowReached"
  | .overrideDetected _ => "OverrideDetected"

/-! ## Effects -/

inductive MessagePurpose
  | proposal | fyi | confirm | clarify | handoff | reviseSummary
  | possiblyInconsistent | divergedReadback | archiveNotice | overrideNotice
  deriving DecidableEq, Repr

inductive TimerKind
  | amazonHold | patience | archive
  deriving DecidableEq, Repr

inductive RuleLearningKind
  | confirm | correct
  deriving DecidableEq, Repr

/-- A confirm or correct event for rule learning; `prior` is the decision a correction overturns. -/
structure FeedRuleLearning where
  event : RuleLearningKind
  payee : String
  decision : Option Decision := none
  prior : Option Decision := none
  deriving DecidableEq

inductive Effect
  | openThread
  | sendThreadMessage (purpose : MessagePurpose) (detail : Option String)
      (decision : Option Decision)
  | commitToYnab (decision : Decision)
  | setTimer (timer : TimerKind) (deadline : Datetime)
  | cancelTimer (timer : TimerKind)
  | feedRuleLearning (feed : FeedRuleLearning)
  | recordAutoAction (ynabId : YnabTransactionId)
  | replayBuffered (signals : List InboundSignal)
  | closeThread
  deriving DecidableEq

/-! ## The timer policy -/

structure LifecyclePolicy where
  patienceWindow : Timedelta := Timedelta.days 7
  amazonHold : Timedelta := Timedelta.hours 36
  archiveWindow : Timedelta := Timedelta.days 30

def defaultPolicy : LifecyclePolicy := {}

end YnabAgent
