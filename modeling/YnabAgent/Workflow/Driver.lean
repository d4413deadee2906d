import YnabAgent.Lib.Run
import YnabAgent.Workflow.Events

/-!
# The driver of a transaction

The lifecycle workflow as a machine that runs between two awaits (`workflow/txn_workflow.py`). It is
suspended on an activity or on a wait; a signal only joins a queue. What resumes it, an activity's
result or its failure, a wait's condition or its deadline, is turned into an event for `advance`,
and the effects are executed in order up to the next await. A resting transaction with an empty
queue and a long history continues as new.

An exception of the state machine fails the workflow task, which is retried from the same history:
the driver is `stuck`.
-/

namespace YnabAgent

/-! ## Where the driver is suspended -/

/-- An activity with its arguments; a read back follows the write of a decision, or the archive
window. -/
inductive Call
  | fetchSnapshot
  | enrich (snapshot : YnabSnapshot)
  | interpretInbound (signal : InboundSignal) (snapshot : YnabSnapshot)
      (proposal : Option Proposal)
  | converge (snapshot : YnabSnapshot) (instruction : InboundSignal) (prior : Option Decision)
  | commitToYnab (decision : Decision)
  | readBack (written : Option Decision)
  | openThread (proposal : Option Proposal) (purpose : MessagePurpose) (detail : Option String)
      (decision : Option Decision)
  | sendThreadMessage (threadId : ThreadId) (purpose : MessagePurpose) (actionSeq : Nat)
      (proposal : Option Proposal) (detail : Option String) (decision : Option Decision)
  | feedRuleLearning (feed : FeedRuleLearning)
  | recordAutoAction (ynabId : YnabTransactionId)
  | closeThread (threadId : ThreadId)
  deriving DecidableEq

/-- The activities whose result is not looked at. -/
def Call.plain : Call → Bool
  | .sendThreadMessage _ _ _ _ _ _ | .feedRuleLearning _ | .recordAutoAction _ | .closeThread _ =>
    true
  | _ => false

/-- What an activity returns. -/
inductive ActivityResult
  | snapshot (snapshot? : Option YnabSnapshot)
  | enriched (outcome : EnrichmentOutcome)
  | interpreted (outcome : ReplyOutcome)
  | converged (outcome : ConvergeOutcome)
  | read (target? : Option TargetState)
  | thread (threadId : ThreadId)
  | done

/-- A condition awaited: the snapshot or an inbound, or an inbound, with a deadline or without. -/
inductive Wait
  | discovered
  | hold (deadline : Datetime)
  | patience (deadline : Datetime)
  | reply
  | archive (deadline : Option Datetime)
  | blocked
  deriving DecidableEq

/-- What follows when the effects are executed: the next step, the wait for a snapshot, or, where
the state is still the one before the event, the timer dropped and a wait for an inbound. -/
inductive Resume
  | nextStep
  | awaitSnapshot
  | unlessLeft (before : TxnState) (timer : TimerKind) (wait : Wait)
  deriving DecidableEq

inductive Suspended
  | calling (call : Call) (rest : List Effect) (resume : Resume)
  | waiting (wait : Wait)
  | completed
  | failed
  | stuck

/-- A resting transaction continues as new past this history length. -/
def continueAsNewAfter : Nat := 4000

/-- The workflow's clock and the length of its history. -/
structure Moment where
  now : Datetime
  historyLength : Nat := 0

structure TransactionParams where
  ynabId : YnabTransactionId
  threadId : Option ThreadId := none
  resumeTxn : Option Transaction := none
  resumeDeadlines : TimerKind → Option Datetime := fun _ => none
  resumeInbound : List InboundSignal := []
  resumeActionSeq : Nat := 0

/-- The workflow's fields, where it is suspended, and the inbounds interpret and converge have
consumed. -/
structure Driver where
  txn : Transaction
  ynabId : YnabTransactionId
  threadId : Option ThreadId := none
  deadlines : TimerKind → Option Datetime := fun _ => none
  inbound : List InboundSignal := []
  snapshotReady : Option YnabSnapshot := none
  actionSeq : Nat := 0
  pc : Suspended := .completed
  consumed : List InboundSignal := []

/-- The states the workflow may sit in for days. -/
def TxnState.resting : TxnState → Bool
  | .discovered | .awaitingHuman | .open | .lapsed | .holdAmazon => true
  | _ => false

namespace Driver

/-! ## Between two awaits -/

/-- Mirror the thread id of the transaction, which may have adopted one. -/
def syncThreadId (d : Driver) : Driver :=
  { d with threadId := d.txn.threadId?.or d.threadId }

def setThreadId (d : Driver) (threadId : ThreadId) : Driver :=
  { d with threadId := some threadId, txn := d.txn.withThread threadId }

/-- The current best guess, in the states that carry one. -/
def proposal (d : Driver) : Option Proposal :=
  match d.txn with
  | .enriching s => s.proposal
  | .awaitingHuman s => s.proposal
  | .lapsed s => s.proposal
  | _ => none

def call (d : Driver) (c : Call) (rest : List Effect) (resume : Resume) : Driver :=
  { d with pc := .calling c rest resume }

def wait (d : Driver) (w : Wait) : Driver :=
  { d with pc := .waiting w }

/-- One step of the loop, up to its first await. -/
def beginStep (d : Driver) : Driver :=
  match d.txn with
  | .discovered _ => d.call .fetchSnapshot [] .nextStep
  | .enriching s => d.call (.enrich s.core.snapshot) [] .nextStep
  | .holdAmazon s => d.wait (.hold s.amazonDeadline)
  | .awaitingHuman s => d.wait (.patience s.patienceDeadline)
  | .opened _ | .lapsed _ => d.wait (.archive (d.deadlines .archive))
  | .revising s => d.call (.converge s.core.snapshot s.instruction s.prior) [] .nextStep
  | .archived _ => { d with pc := .completed }
  -- the step returns at once, and the loop never awaits
  | .autoApplied _ | .applied _ => { d with pc := .stuck }

def resumeParams (d : Driver) : TransactionParams where
  ynabId := d.ynabId
  threadId := d.threadId
  resumeTxn := some d.txn
  resumeDeadlines := d.deadlines
  resumeInbound := d.inbound
  resumeActionSeq := d.actionSeq

/-- The start of a run, up to its first await. -/
def start (params : TransactionParams) : Driver :=
  beginStep <| syncThreadId
    { txn := params.resumeTxn.getD (born params.ynabId params.threadId)
      ynabId := params.ynabId
      threadId := params.threadId
      deadlines := params.resumeDeadlines
      inbound := params.resumeInbound
      actionSeq := params.resumeActionSeq }

def continueAsNew (d : Driver) : Driver :=
  { start d.resumeParams with consumed := d.consumed }

/-- The end of a step: continue as new, or go on with the next one. -/
def endStep (m : Moment) (d : Driver) : Driver :=
  if d.txn.state.resting ∧ d.inbound = [] ∧ continueAsNewAfter < m.historyLength then
    d.continueAsNew
  else d.beginStep

/-- What an effect comes to: done at once, or an activity to await. -/
inductive Performed
  | settled (d : Driver)
  | awaits (c : Call) (d : Driver)

/-- A message without a thread opens it. -/
def perform (d : Driver) : Effect → Performed
  | .commitToYnab decision => .awaits (.commitToYnab decision) d
  | .openThread => .awaits (.openThread d.proposal .proposal none none) d
  | .sendThreadMessage purpose detail decision =>
    match d.threadId with
    | none => .awaits (.openThread d.proposal purpose detail decision) d
    | some threadId =>
      .awaits (.sendThreadMessage threadId purpose (d.actionSeq + 1) d.proposal detail decision)
        { d with actionSeq := d.actionSeq + 1 }
  | .feedRuleLearning feed => .awaits (.feedRuleLearning feed) d
  | .recordAutoAction ynabId => .awaits (.recordAutoAction ynabId) d
  | .closeThread =>
    match d.threadId with
    | none => .settled d
    | some threadId => .awaits (.closeThread threadId) d
  | .setTimer timer deadline =>
    .settled { d with deadlines := Function.update d.deadlines timer (some deadline) }
  | .cancelTimer timer =>
    .settled { d with deadlines := Function.update d.deadlines timer none }
  | .replayBuffered signals => .settled { d with inbound := signals ++ d.inbound }

/-- What follows the last effect. -/
def finish (m : Moment) (d : Driver) : Resume → Driver
  | .nextStep => d.endStep m
  | .awaitSnapshot => d.wait .discovered
  | .unlessLeft before timer w =>
    if d.txn.state = before then
      { d with deadlines := Function.update d.deadlines timer none }.wait w
    else d.endStep m

/-- Execute the effects in order, up to the first that awaits an activity. -/
def execute (m : Moment) (d : Driver) (resume : Resume) : List Effect → Driver
  | [] => d.finish m resume
  | effect :: rest =>
    match d.perform effect with
    | .settled d' => d'.execute m resume rest
    | .awaits c d' => d'.call c rest resume

@[simp] theorem call_txn (d : Driver) (c : Call) (rest : List Effect) (resume : Resume) :
    (d.call c rest resume).txn = d.txn := rfl

@[simp] theorem wait_txn (d : Driver) (w : Wait) : (d.wait w).txn = d.txn := rfl

@[simp] theorem syncThreadId_txn (d : Driver) : d.syncThreadId.txn = d.txn := rfl

@[simp] theorem beginStep_txn (d : Driver) : d.beginStep.txn = d.txn := by
  unfold beginStep
  split <;> rfl

@[simp] theorem continueAsNew_txn (d : Driver) : d.continueAsNew.txn = d.txn := by
  simp [continueAsNew, start, resumeParams]

@[simp] theorem finish_txn (m : Moment) (d : Driver) (resume : Resume) :
    (d.finish m resume).txn = d.txn := by
  cases resume with
  | nextStep => simp only [finish, endStep]; split <;> simp
  | awaitSnapshot => rfl
  | unlessLeft before timer w =>
    simp only [finish, endStep]
    split
    · rfl
    · split <;> simp

/-- The driver a performed effect leaves. -/
def Performed.driver : Performed → Driver
  | .settled d => d
  | .awaits _ d => d

theorem perform_txn (d : Driver) (effect : Effect) : (d.perform effect).driver.txn = d.txn := by
  cases effect with
  | sendThreadMessage purpose detail decision =>
    cases hthread : d.threadId <;> simp [perform, hthread, Performed.driver]
  | closeThread => cases hthread : d.threadId <;> simp [perform, hthread, Performed.driver]
  | _ => rfl

/-- Effects never change the transaction. -/
@[simp] theorem execute_txn (m : Moment) (resume : Resume) (effects : List Effect) (d : Driver) :
    (d.execute m resume effects).txn = d.txn := by
  induction effects generalizing d with
  | nil => exact finish_txn m d resume
  | cons effect rest ih =>
    have htxn := perform_txn d effect
    unfold execute
    cases hperform : d.perform effect with
    | settled d' => rw [hperform] at htxn; exact (ih d').trans htxn
    | awaits c d' => rw [hperform] at htxn; exact htxn

/-- Feed an event to the machine and execute its effects, then those still left. -/
def dispatch (m : Moment) (d : Driver) (event : LifecycleEvent) (rest : List Effect)
    (resume : Resume) : Except ValidationError Driver := do
  let tr ← advance m.now defaultPolicy d.txn event
  pure ((syncThreadId { d with txn := tr.next }).execute m resume (tr.effects ++ rest))

/-- A workflow task that raised leaves the driver as it was. -/
def orStuck (d : Driver) : Except ValidationError Driver → Driver
  | .ok d' => d'
  | .error _ => { d with pc := .stuck }

/-! ## Steps -/

/-- A signal accepted, an activity's result or failure, a condition met, a deadline passed. -/
inductive Act
  | submitInbound (signal : InboundSignal)
  | notifySnapshot (snapshot : YnabSnapshot)
  | returned (m : Moment) (result : ActivityResult)
  | failed (m : Moment)
  | wake (m : Moment)
  | timeout (m : Moment)

def closed (d : Driver) : Bool :=
  match d.pc with
  | .completed | .failed => true
  | _ => false

section steps
variable (text : PyText) {δ : Type} [DecidableEq δ] (digest : TargetState → δ)

/-- The event an inbound makes, once it is taken from the queue. -/
def receive (m : Moment) (d : Driver) (signal : InboundSignal) (rest : List InboundSignal) :
    Driver :=
  d.orStuck ({ d with inbound := rest }.dispatch m (.inboundReceived signal) [] .nextStep)

/-- The inbound taken from the queue is interpreted. -/
def interpret (d : Driver) (s : AwaitingHuman) (signal : InboundSignal)
    (rest : List InboundSignal) : Driver :=
  { d with inbound := rest, consumed := d.consumed ++ [signal] }.call
    (.interpretInbound signal s.core.snapshot d.proposal) [] .nextStep

/-- An activity returned. -/
def onReturn (m : Moment) (d : Driver) : Suspended → ActivityResult → Option Driver
  | .calling .fetchSnapshot _ _, .snapshot (some snapshot) =>
    some (d.orStuck (d.dispatch m (materialized text snapshot) [] .nextStep))
  | .calling .fetchSnapshot _ _, .snapshot none =>
    some (d.orStuck (d.dispatch m .snapshotUnavailable [] .awaitSnapshot))
  | .calling (.enrich _) _ _, .enriched outcome =>
    some (d.orStuck (d.dispatch m (.enriched outcome) [] .nextStep))
  | .calling (.interpretInbound _ _ _) _ _, .interpreted outcome =>
    some (d.orStuck (d.dispatch m (replyEvent outcome) [] .nextStep))
  | .calling (.converge _ instruction _) _ _, .converged outcome =>
    some (d.orStuck ({ d with consumed := d.consumed ++ [instruction] }.dispatch m
      (.converged outcome) [] .nextStep))
  | .calling (.commitToYnab decision) rest resume, .done =>
    some (d.call (.readBack (some decision)) rest resume)
  | .calling (.readBack (some decision)) rest resume, .read target? =>
    some (d.orStuck (d.dispatch m
      (.writeVerified (classifyVerify digest target? (targetOf decision))) rest resume))
  | .calling (.readBack none) _ _, .read target? =>
    match d.txn with
    | .opened s =>
      some (d.orStuck (d.dispatch m (archiveOrOverride s.decision target? m.now) []
        (.unlessLeft .open .archive .blocked)))
    | _ => none
  | .calling (.openThread _ _ _ _) rest resume, .thread threadId =>
    some ((d.setThreadId threadId).execute m resume rest)
  | .calling (.sendThreadMessage _ _ _ _ _ _) rest resume, .done =>
    some (d.execute m resume rest)
  | .calling (.feedRuleLearning _) rest resume, .done => some (d.execute m resume rest)
  | .calling (.recordAutoAction _) rest resume, .done => some (d.execute m resume rest)
  | .calling (.closeThread _) rest resume, .done => some (d.execute m resume rest)
  | _, _ => none

/-- An activity failed for good: the run fails, unless it was the record of an auto-action. -/
def onFailure (m : Moment) (d : Driver) : Suspended → Option Driver
  | .calling (.recordAutoAction _) rest resume => some (d.execute m resume rest)
  | .calling _ _ _ => some { d with pc := .failed }
  | _ => none

/-- A wait's condition holds. -/
def onWake (m : Moment) (d : Driver) : Wait → Option Driver
  | .discovered =>
    match d.snapshotReady, d.inbound with
    | some snapshot, _ =>
      some (d.orStuck ({ d with snapshotReady := none }.dispatch m (materialized text snapshot) []
        .nextStep))
    | none, signal :: rest => some (d.receive m signal rest)
    | none, [] => none
  | .hold _ =>
    match d.snapshotReady, d.inbound with
    | some snapshot, _ =>
      some (d.orStuck ({ d with snapshotReady := none }.dispatch m (.holdResolved snapshot) []
        .nextStep))
    | none, signal :: rest => some (d.receive m signal rest)
    | none, [] => none
  | .patience _ | .reply =>
    match d.txn, d.inbound with
    | .awaitingHuman s, signal :: rest => some (d.interpret s signal rest)
    | _, _ => none
  | .archive _ | .blocked =>
    match d.inbound with
    | signal :: rest => some (d.receive m signal rest)
    | [] => none

/-- A wait's deadline has passed. -/
def onTimeout (m : Moment) (d : Driver) : Wait → Option Driver
  | .hold deadline =>
    if deadline ≤ m.now then some (d.orStuck (d.dispatch m .holdDeadlineReached [] .nextStep))
    else none
  | .patience deadline =>
    if deadline ≤ m.now then
      some (d.orStuck (d.dispatch m .patienceExpired []
        (.unlessLeft .awaitingHuman .patience .reply)))
    else none
  | .archive (some deadline) =>
    if deadline ≤ m.now then
      match d.txn with
      -- YNAB is read again before the book is closed
      | .opened _ => some (d.call (.readBack none) [] .nextStep)
      | _ =>
        some (d.orStuck (d.dispatch m .archiveWindowReached []
          (.unlessLeft .lapsed .archive .blocked)))
    else none
  | _ => none

def step (d : Driver) : Act → Option Driver
  | .submitInbound signal =>
    if d.closed then none else some { d with inbound := d.inbound ++ [signal] }
  | .notifySnapshot snapshot =>
    if d.closed then none else some { d with snapshotReady := some snapshot }
  | .returned m result => d.onReturn text digest m d.pc result
  | .failed m => d.onFailure m d.pc
  | .wake m =>
    match d.pc with
    | .waiting w => d.onWake text m w
    | _ => none
  | .timeout m =>
    match d.pc with
    | .waiting w => d.onTimeout m w
    | _ => none

abbrev Run := Lib.Run (Lib.StepOf (Driver.step text digest))

/-! ## What one step can do -/

/-- How an event comes about: what the driver is suspended on and the act, with the driver that
feeds the event, the effects still to execute after its own, and what follows them. -/
inductive Feeds (d : Driver) :
    Act → Moment → LifecycleEvent → List Effect → Resume → Driver → Prop
  | fetched {rest : List Effect} {resume : Resume} (m : Moment) (snapshot : YnabSnapshot)
      (hpc : d.pc = .calling .fetchSnapshot rest resume) :
      Feeds d (.returned m (.snapshot (some snapshot))) m (materialized text snapshot)
        [] .nextStep d
  | unavailable {rest : List Effect} {resume : Resume} (m : Moment)
      (hpc : d.pc = .calling .fetchSnapshot rest resume) :
      Feeds d (.returned m (.snapshot none)) m .snapshotUnavailable [] .awaitSnapshot d
  | enriched {snapshot : YnabSnapshot} {rest : List Effect} {resume : Resume} (m : Moment)
      (outcome : EnrichmentOutcome) (hpc : d.pc = .calling (.enrich snapshot) rest resume) :
      Feeds d (.returned m (.enriched outcome)) m (.enriched outcome) [] .nextStep d
  | interpreted {signal : InboundSignal} {snapshot : YnabSnapshot} {proposal : Option Proposal}
      {rest : List Effect} {resume : Resume} (m : Moment) (outcome : ReplyOutcome)
      (hpc : d.pc = .calling (.interpretInbound signal snapshot proposal) rest resume) :
      Feeds d (.returned m (.interpreted outcome)) m (replyEvent outcome) [] .nextStep d
  | converged {snapshot : YnabSnapshot} {instruction : InboundSignal} {prior : Option Decision}
      {rest : List Effect} {resume : Resume} (m : Moment) (outcome : ConvergeOutcome)
      (hpc : d.pc = .calling (.converge snapshot instruction prior) rest resume) :
      Feeds d (.returned m (.converged outcome)) m (.converged outcome) [] .nextStep
        { d with consumed := d.consumed ++ [instruction] }
  | verified {decision : Decision} {rest : List Effect} {resume : Resume} (m : Moment)
      (target? : Option TargetState)
      (hpc : d.pc = .calling (.readBack (some decision)) rest resume) :
      Feeds d (.returned m (.read target?)) m
        (.writeVerified (classifyVerify digest target? (targetOf decision))) rest resume d
  | reread {rest : List Effect} {resume : Resume} (m : Moment) (target? : Option TargetState)
      (s : Open) (hpc : d.pc = .calling (.readBack none) rest resume) (htxn : d.txn = .opened s) :
      Feeds d (.returned m (.read target?)) m (archiveOrOverride s.decision target? m.now) []
        (.unlessLeft .open .archive .blocked) d
  | notified (m : Moment) (snapshot : YnabSnapshot) (hpc : d.pc = .waiting .discovered)
      (hready : d.snapshotReady = some snapshot) :
      Feeds d (.wake m) m (materialized text snapshot) [] .nextStep { d with snapshotReady := none }
  | backfilled {deadline : Datetime} (m : Moment) (snapshot : YnabSnapshot)
      (hpc : d.pc = .waiting (.hold deadline)) (hready : d.snapshotReady = some snapshot) :
      Feeds d (.wake m) m (.holdResolved snapshot) [] .nextStep { d with snapshotReady := none }
  | received {w : Wait} {signal : InboundSignal} {queue : List InboundSignal} (m : Moment)
      (hpc : d.pc = .waiting w) (hw : ∀ deadline, w ≠ .patience deadline ∧ w ≠ .reply)
      (hqueue : d.inbound = signal :: queue) :
      Feeds d (.wake m) m (.inboundReceived signal) [] .nextStep { d with inbound := queue }
  | holdOver {deadline : Datetime} (m : Moment) (hpc : d.pc = .waiting (.hold deadline)) :
      Feeds d (.timeout m) m .holdDeadlineReached [] .nextStep d
  | patienceOver {deadline : Datetime} (m : Moment) (hpc : d.pc = .waiting (.patience deadline)) :
      Feeds d (.timeout m) m .patienceExpired [] (.unlessLeft .awaitingHuman .patience .reply) d
  | archiveDue {deadline : Datetime} (m : Moment)
      (hpc : d.pc = .waiting (.archive (some deadline))) (htxn : ∀ s, d.txn ≠ .opened s) :
      Feeds d (.timeout m) m .archiveWindowReached [] (.unlessLeft .lapsed .archive .blocked) d

/-- The steps of the driver. -/
inductive Turn (d : Driver) : Act → Driver → Prop
  | accept (signal : InboundSignal) (h : d.closed = false) :
      Turn d (.submitInbound signal) { d with inbound := d.inbound ++ [signal] }
  | notify (snapshot : YnabSnapshot) (h : d.closed = false) :
      Turn d (.notifySnapshot snapshot) { d with snapshotReady := some snapshot }
  | fed {act : Act} {m : Moment} {event : LifecycleEvent} {rest : List Effect} {resume : Resume}
      {d₁ : Driver} {tr : Transition} (h : Feeds text digest d act m event rest resume d₁)
      (hadv : advance m.now defaultPolicy d₁.txn event = .ok tr) :
      Turn d act ((syncThreadId { d₁ with txn := tr.next }).execute m resume (tr.effects ++ rest))
  | raised {act : Act} {m : Moment} {event : LifecycleEvent} {rest : List Effect} {resume : Resume}
      {d₁ : Driver} {e : ValidationError} (h : Feeds text digest d act m event rest resume d₁)
      (herr : advance m.now defaultPolicy d₁.txn event = .error e) :
      Turn d act { d with pc := .stuck }
  | interpret {w : Wait} {s : AwaitingHuman} {signal : InboundSignal}
      {queue : List InboundSignal} (m : Moment) (hpc : d.pc = .waiting w)
      (htxn : d.txn = .awaitingHuman s) (hqueue : d.inbound = signal :: queue) :
      Turn d (.wake m) (d.interpret s signal queue)
  | reread {deadline : Datetime} {s : Open} (m : Moment)
      (hpc : d.pc = .waiting (.archive (some deadline))) (htxn : d.txn = .opened s) :
      Turn d (.timeout m) (d.call (.readBack none) [] .nextStep)
  | committed {decision : Decision} {rest : List Effect} {resume : Resume} (m : Moment)
      (hpc : d.pc = .calling (.commitToYnab decision) rest resume) :
      Turn d (.returned m .done) (d.call (.readBack (some decision)) rest resume)
  | opened {proposal : Option Proposal} {purpose : MessagePurpose} {detail : Option String}
      {decision : Option Decision} {rest : List Effect} {resume : Resume} (m : Moment)
      (threadId : ThreadId)
      (hpc : d.pc = .calling (.openThread proposal purpose detail decision) rest resume) :
      Turn d (.returned m (.thread threadId)) ((d.setThreadId threadId).execute m resume rest)
  | wentOn {c : Call} {rest : List Effect} {resume : Resume} (m : Moment)
      (hpc : d.pc = .calling c rest resume) (hc : c.plain = true) :
      Turn d (.returned m .done) (d.execute m resume rest)
  | unrecorded {ynabId : YnabTransactionId} {rest : List Effect} {resume : Resume} (m : Moment)
      (hpc : d.pc = .calling (.recordAutoAction ynabId) rest resume) :
      Turn d (.failed m) (d.execute m resume rest)
  | failed {c : Call} {rest : List Effect} {resume : Resume} (m : Moment)
      (hpc : d.pc = .calling c rest resume) : Turn d (.failed m) { d with pc := .failed }

variable {text digest} {d d' : Driver}

/-- Feeding an event is a turn, whether or not the machine raises on it. -/
theorem Feeds.turn {act : Act} {m : Moment} {event : LifecycleEvent} {rest : List Effect}
    {resume : Resume} {d₁ : Driver} (h : Feeds text digest d act m event rest resume d₁) :
    Turn text digest d act (d.orStuck (d₁.dispatch m event rest resume)) := by
  unfold dispatch
  cases hadv : advance m.now defaultPolicy d₁.txn event with
  | error e => exact .raised h hadv
  | ok tr => exact .fed h hadv

theorem onReturn_turn {m : Moment} {result : ActivityResult}
    (h : d.onReturn text digest m d.pc result = some d') :
    Turn text digest d (.returned m result) d' := by
  unfold onReturn at h
  split at h
  · rename_i hpc; cases h; exact (Feeds.fetched m _ hpc).turn
  · rename_i hpc; cases h; exact (Feeds.unavailable m hpc).turn
  · rename_i hpc; cases h; exact (Feeds.enriched m _ hpc).turn
  · rename_i hpc; cases h; exact (Feeds.interpreted m _ hpc).turn
  · rename_i hpc; cases h; exact (Feeds.converged m _ hpc).turn
  · rename_i hpc; cases h; exact .committed m hpc
  · rename_i hpc; cases h; exact (Feeds.verified m _ hpc).turn
  · rename_i hpc
    split at h
    · rename_i s htxn; cases h; exact (Feeds.reread m _ s hpc htxn).turn
    · cases h
  · rename_i hpc; cases h; exact .opened m _ hpc
  · rename_i hpc; cases h; exact .wentOn m hpc rfl
  · rename_i hpc; cases h; exact .wentOn m hpc rfl
  · rename_i hpc; cases h; exact .wentOn m hpc rfl
  · rename_i hpc; cases h; exact .wentOn m hpc rfl
  · cases h

theorem onFailure_turn {m : Moment} (h : d.onFailure m d.pc = some d') :
    Turn text digest d (.failed m) d' := by
  unfold onFailure at h
  split at h
  · rename_i hpc; cases h; exact .unrecorded m hpc
  · rename_i hpc; cases h; exact .failed m hpc
  · cases h

theorem onWake_turn {m : Moment} {w : Wait} (hpc : d.pc = .waiting w)
    (h : d.onWake text m w = some d') : Turn text digest d (.wake m) d' := by
  unfold onWake at h
  split at h
  · split at h
    · rename_i hready; cases h; exact (Feeds.notified m _ hpc hready).turn
    · rename_i hqueue
      cases h
      exact (Feeds.received m hpc (fun _ => ⟨Wait.noConfusion, Wait.noConfusion⟩) hqueue).turn
    · cases h
  · split at h
    · rename_i hready; cases h; exact (Feeds.backfilled m _ hpc hready).turn
    · rename_i hqueue
      cases h
      exact (Feeds.received m hpc (fun _ => ⟨Wait.noConfusion, Wait.noConfusion⟩) hqueue).turn
    · cases h
  · split at h
    · rename_i htxn hqueue; cases h; exact .interpret m hpc htxn hqueue
    · cases h
  · split at h
    · rename_i htxn hqueue; cases h; exact .interpret m hpc htxn hqueue
    · cases h
  · split at h
    · rename_i hqueue
      cases h
      exact (Feeds.received m hpc (fun _ => ⟨Wait.noConfusion, Wait.noConfusion⟩) hqueue).turn
    · cases h
  · split at h
    · rename_i hqueue
      cases h
      exact (Feeds.received m hpc (fun _ => ⟨Wait.noConfusion, Wait.noConfusion⟩) hqueue).turn
    · cases h

theorem onTimeout_turn {m : Moment} {w : Wait} (hpc : d.pc = .waiting w)
    (h : d.onTimeout m w = some d') : Turn text digest d (.timeout m) d' := by
  unfold onTimeout at h
  split at h
  · split at h
    · cases h; exact (Feeds.holdOver m hpc).turn
    · cases h
  · split at h
    · cases h; exact (Feeds.patienceOver m hpc).turn
    · cases h
  · split at h
    · split at h
      · rename_i s htxn; cases h; exact .reread m hpc htxn
      · rename_i htxn; cases h; exact (Feeds.archiveDue m hpc htxn).turn
    · cases h
  · cases h

/-- Every step of the driver is one of the turns. -/
theorem step_turn {act : Act} (h : d.step text digest act = some d') :
    Turn text digest d act d' := by
  cases act with
  | submitInbound signal =>
    simp only [step] at h
    split at h
    · cases h
    · rename_i hopen; cases h; exact .accept signal (by simpa using hopen)
  | notifySnapshot snapshot =>
    simp only [step] at h
    split at h
    · cases h
    · rename_i hopen; cases h; exact .notify snapshot (by simpa using hopen)
  | returned m result => exact onReturn_turn h
  | failed m => exact onFailure_turn h
  | wake m =>
    simp only [step] at h
    split at h
    · rename_i hpc; exact onWake_turn hpc h
    · cases h
  | timeout m =>
    simp only [step] at h
    split at h
    · rename_i hpc; exact onTimeout_turn hpc h
    · cases h

end steps

end Driver

abbrev DriverBeat := Lib.Beat Driver Driver.Act

end YnabAgent
