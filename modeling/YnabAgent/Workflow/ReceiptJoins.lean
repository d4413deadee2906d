import YnabAgent.Join.Match
import YnabAgent.Join.Store
import YnabAgent.Lib.Latch
import YnabAgent.Lib.Run

/-!
# The joins of a receipt

A forwarded receipt is parked in the ledger by a signal and its first join started; the poll queries
the open receipts and starts a join with each copy (`workflow/receipt_workflow.py`,
`workflow/receipt_activities.py`, `workflow/receipt_ledger_workflow.py`). At most one join of a
receipt id runs at a time. A join plans on its copy, acts by one activity and saves the resulting
status by another; an activity attempt may have its effect without returning, and is then tried
again. The ledger folds the signals on their way in any order.

To each receipt the world is a latch (`JoinWorld.latch`): the status is the register, the running
join its worker, `matched` the value it acts on.
-/

namespace YnabAgent

/-! ## The world -/

/-- A signal on its way to the ledger. -/
inductive LedgerSignal
  | park (receipt : Receipt)
  | setStatus (receiptId : ReceiptId) (status : ReceiptStatus)
  deriving DecidableEq

def ReceiptLedgerState.fold (state : ReceiptLedgerState) : LedgerSignal → ReceiptLedgerState
  | .park receipt => state.park receipt
  | .setStatus receiptId status => state.setStatus receiptId status

/-- How far a join has come, with whether some attempt of the activity under way had its effect. -/
inductive JoinPhase
  | matching
  | acting (action : JoinAction) (took : Bool)
  | saving (action : JoinAction) (sent : Bool)
  deriving DecidableEq

/-- The phase after an attempt of the action: the next one where it returned. -/
def JoinPhase.afterAct (action : JoinAction) (before took returns : Bool) : JoinPhase :=
  if returns then .saving action false else .acting action (before || took)

/-- A running join: its number, its copy of the receipt, its phase. -/
structure JoinAttempt where
  number : Nat
  receipt : Receipt
  phase : JoinPhase := .matching
  deriving DecidableEq

inductive JoinEvent
  | parked (receiptId : ReceiptId)
  | acted (number : Nat) (action : JoinAction)
  deriving DecidableEq

/-- The ledger, the signals on their way, the copies handed out, the running join of each receipt
id, the number of joins started, and the log. -/
structure JoinWorld where
  ledger : ReceiptLedgerState := {}
  inFlight : List LedgerSignal := []
  copies : List Receipt := []
  running : ReceiptId → Option JoinAttempt := fun _ => none
  started : Nat := 0
  log : List JoinEvent := []

inductive JoinAct
  /-- The dispatcher parks a parsed forward and keeps it for the first join. -/
  | forward (receipt : Receipt)
  /-- The poll lists the open receipts. -/
  | query
  | land (signal : LedgerSignal)
  | start (receipt : Receipt)
  | plan (id : ReceiptId) (outcome : MatchOutcome) (now : Datetime)
  /-- An attempt of the action's activity. -/
  | act (id : ReceiptId) (took returns : Bool)
  /-- An attempt of `save_receipt_status`. -/
  | save (id : ReceiptId) (sent returns : Bool)
  /-- The attempts are used up. -/
  | fail (id : ReceiptId)

namespace JoinWorld

def setRunning (w : JoinWorld) (id : ReceiptId) (attempt : Option JoinAttempt) : JoinWorld :=
  { w with running := Function.update w.running id attempt }

@[simp] theorem setRunning_running_self (w : JoinWorld) (id : ReceiptId)
    (attempt : Option JoinAttempt) : (w.setRunning id attempt).running id = attempt :=
  Function.update_self (β := fun _ => Option JoinAttempt) id attempt w.running

theorem setRunning_running_of_ne {w : JoinWorld} {id id' : ReceiptId} (hne : id ≠ id')
    (attempt : Option JoinAttempt) : (w.setRunning id' attempt).running id = w.running id :=
  Function.update_of_ne (β := fun _ => Option JoinAttempt) hne attempt w.running

/-- An attempt still running covers the start. -/
def startJoin (w : JoinWorld) (receipt : Receipt) : JoinWorld :=
  match w.running receipt.id with
  | some _ => w
  | none =>
    { w.setRunning receipt.id (some { number := w.started, receipt }) with
      started := w.started + 1 }

/-- A receipt unknown to the ledger is not delivered and, like one without a thread, not asked
about. -/
def canTake (ledger : ReceiptLedgerState) : JoinAction → Bool
  | .signalTransaction _ receiptId => (ledger.get receiptId).isSome
  | .askDisambiguation receiptId _ => ((ledger.get receiptId).bind (·.sourceThreadId)).isSome
  | _ => true

def logged : LedgerSignal → List JoinEvent
  | .park receipt => [.parked receipt.id]
  | .setStatus _ _ => []

def step (w : JoinWorld) : JoinAct → Option JoinWorld
  | .forward receipt =>
    if receipt.status = .parked then
      some { w with inFlight := w.inFlight ++ [.park receipt], copies := receipt :: w.copies }
    else none
  | .query => some { w with copies := w.ledger.openReceipts ++ w.copies }
  | .land signal =>
    if signal ∈ w.inFlight then
      some { w with ledger := w.ledger.fold signal, inFlight := w.inFlight.erase signal,
                    log := w.log ++ logged signal }
    else none
  | .start receipt => if receipt ∈ w.copies then some (w.startJoin receipt) else none
  | .plan id outcome now =>
    match w.running id with
    | some ⟨number, receipt, .matching⟩ =>
      let action := planJoin receipt outcome now
      match resultingStatus action with
      | none => some (w.setRunning id none)
      | some _ => some (w.setRunning id (some ⟨number, receipt, .acting action false⟩))
    | _ => none
  | .act id took returns =>
    match w.running id with
    | some ⟨number, receipt, .acting action before⟩ =>
      if (took → canTake w.ledger action) ∧ (returns → took) then
        some { w.setRunning id (some ⟨number, receipt, .afterAct action before took returns⟩) with
               log := w.log ++ if took then [.acted number action] else [] }
      else none
    | _ => none
  | .save id sent returns =>
    match w.running id with
    | some ⟨number, receipt, .saving action before⟩ =>
      match resultingStatus action with
      | some status =>
        if returns → sent then
          some { w.setRunning id (if returns then none
                  else some ⟨number, receipt, .saving action (before || sent)⟩) with
                 inFlight := w.inFlight ++ if sent then [.setStatus receipt.id status] else [] }
        else none
      | none => none
    | _ => none
  | .fail id =>
    match w.running id with
    | some _ => some (w.setRunning id none)
    | none => none

/-- What one step can do. -/
inductive Turn (w : JoinWorld) : JoinAct → JoinWorld → Prop
  | forward (receipt : Receipt) (hparked : receipt.status = .parked) :
      Turn w (.forward receipt)
        { w with inFlight := w.inFlight ++ [.park receipt], copies := receipt :: w.copies }
  | query : Turn w .query { w with copies := w.ledger.openReceipts ++ w.copies }
  | land (signal : LedgerSignal) (hmem : signal ∈ w.inFlight) :
      Turn w (.land signal)
        { w with ledger := w.ledger.fold signal, inFlight := w.inFlight.erase signal,
                 log := w.log ++ logged signal }
  | start (receipt : Receipt) : Turn w (.start receipt) (w.startJoin receipt)
  | leave {id : ReceiptId} {number : Nat} {receipt : Receipt} (outcome : MatchOutcome)
      (now : Datetime) (hrun : w.running id = some ⟨number, receipt, .matching⟩) :
      Turn w (.plan id outcome now) (w.setRunning id none)
  | plan {id : ReceiptId} {number : Nat} {receipt : Receipt} {status : ReceiptStatus}
      (outcome : MatchOutcome) (now : Datetime)
      (hrun : w.running id = some ⟨number, receipt, .matching⟩)
      (hstatus : resultingStatus (planJoin receipt outcome now) = some status) :
      Turn w (.plan id outcome now)
        (w.setRunning id (some ⟨number, receipt, .acting (planJoin receipt outcome now) false⟩))
  | act {id : ReceiptId} {number : Nat} {receipt : Receipt} {action : JoinAction} {before : Bool}
      (took returns : Bool) (hrun : w.running id = some ⟨number, receipt, .acting action before⟩)
      (htake : took → canTake w.ledger action) (hreturns : returns → took) :
      Turn w (.act id took returns)
        { w.setRunning id (some ⟨number, receipt, .afterAct action before took returns⟩) with
          log := w.log ++ if took then [.acted number action] else [] }
  | save {id : ReceiptId} {number : Nat} {receipt : Receipt} {action : JoinAction}
      {status : ReceiptStatus} {before : Bool} (sent returns : Bool)
      (hrun : w.running id = some ⟨number, receipt, .saving action before⟩)
      (hstatus : resultingStatus action = some status) (hreturns : returns → sent) :
      Turn w (.save id sent returns)
        { w.setRunning id (if returns then none
            else some ⟨number, receipt, .saving action (before || sent)⟩) with
          inFlight := w.inFlight ++ if sent then [.setStatus receipt.id status] else [] }
  | fail {id : ReceiptId} {attempt : JoinAttempt} (hrun : w.running id = some attempt) :
      Turn w (.fail id) (w.setRunning id none)

theorem step_turn {w w' : JoinWorld} {act : JoinAct} (h : w.step act = some w') :
    Turn w act w' := by
  cases act with
  | forward receipt =>
    simp only [step] at h
    split at h
    · rename_i hparked; cases h; exact .forward receipt hparked
    · cases h
  | query => cases h; exact .query
  | land signal =>
    simp only [step] at h
    split at h
    · rename_i hmem; cases h; exact .land signal hmem
    · cases h
  | start receipt =>
    simp only [step] at h
    split at h
    · cases h; exact .start receipt
    · cases h
  | plan id outcome now =>
    simp only [step] at h
    split at h
    · rename_i hrun
      split at h
      · cases h; exact .leave outcome now hrun
      · rename_i hstatus; cases h; exact .plan outcome now hrun hstatus
    · cases h
  | act id took returns =>
    simp only [step] at h
    split at h
    · rename_i hrun
      split at h
      · rename_i henabled; cases h; exact .act took returns hrun henabled.1 henabled.2
      · cases h
    · cases h
  | save id sent returns =>
    simp only [step] at h
    split at h
    · rename_i hrun
      split at h
      · rename_i hstatus
        split at h
        · rename_i hreturns; cases h; exact .save sent returns hrun hstatus hreturns
        · cases h
      · cases h
    · cases h
  | fail id =>
    simp only [step] at h
    split at h
    · rename_i hrun; cases h; exact .fail hrun
    · cases h

end JoinWorld

abbrev JoinBeat := Lib.Beat JoinWorld JoinAct

abbrev JoinRun := Lib.Run (Lib.StepOf JoinWorld.step)

/-! ## The latch of a receipt -/

/-- The join an event says delivered the receipt. -/
def JoinEvent.delivery (id : ReceiptId) : JoinEvent → Option Nat
  | .acted number (.signalTransaction _ receiptId) => if receiptId = id then some number else none
  | _ => none

/-- The joins that delivered the receipt to a transaction. -/
def deliverers (log : List JoinEvent) (id : ReceiptId) : List Nat :=
  log.filterMap (JoinEvent.delivery id)

/-- The status a signal asks for. -/
def LedgerSignal.write (id : ReceiptId) : LedgerSignal → Option ReceiptStatus
  | .setStatus receiptId status => if receiptId = id then some status else none
  | .park _ => none

def JoinPhase.action? : JoinPhase → Option JoinAction
  | .matching => none
  | .acting action _ | .saving action _ => some action

@[simp] theorem JoinPhase.afterAct_action? (action : JoinAction) (before took returns : Bool) :
    (JoinPhase.afterAct action before took returns).action? = some action := by
  cases returns <;> rfl

def JoinAttempt.worker (attempt : JoinAttempt) : Lib.Worker ReceiptStatus where
  ticket := attempt.number
  aim := attempt.phase.action?.bind resultingStatus
  acted :=
    match attempt.phase with
    | .matching => false
    | .acting _ took => took
    | .saving _ _ => true
  sent :=
    match attempt.phase with
    | .saving _ sent => sent
    | _ => false

/-- Matched and expired are final. -/
def ReceiptStatus.Final (status : ReceiptStatus) : Prop :=
  status.isOpen = false

namespace JoinWorld

/-- What the world is to one receipt. -/
def latch (id : ReceiptId) (w : JoinWorld) : Lib.Latch ReceiptStatus where
  held := w.ledger.status? id
  known := .parked id ∈ w.log
  writes := w.inFlight.filterMap (LedgerSignal.write id)
  worker := (w.running id).map JoinAttempt.worker
  acts := deliverers w.log id

abbrev LatchSteps := Lib.Latch.Steps ReceiptStatus.Final .matched

/-- The condition: a forward of a receipt that left the table does not come again; a join decides
on an effect only while the ledger's final status and every status on its way are the one it sets,
and not `matched`; a join that delivered does not fail before its status is saved. -/
def Keeps (beat : JoinBeat) : Prop :=
  match beat.act with
  | .land (.park receipt) =>
    receipt.id ∈ beat.pre.ledger.ids ∨ JoinEvent.parked receipt.id ∉ beat.pre.log
  | .plan id outcome now =>
    ∀ attempt status, beat.pre.running id = some attempt →
      resultingStatus (planJoin attempt.receipt outcome now) = some status →
      (beat.pre.latch id).Allows ReceiptStatus.Final .matched status
  | .fail id =>
    ∀ attempt txnId receiptId, beat.pre.running id = some attempt →
      attempt.phase.action? = some (.signalTransaction txnId receiptId) →
      attempt.worker.acted = true → attempt.worker.sent = true
  | _ => True

/-- What every step keeps: the table has distinct ids, receipts come parked, and a running join is
about its own receipt. -/
structure Wf (w : JoinWorld) : Prop where
  nodup : w.ledger.ids.Nodup
  parked : ∀ receipt, LedgerSignal.park receipt ∈ w.inFlight → receipt.status = .parked
  own : ∀ id attempt, w.running id = some attempt → attempt.receipt.id = id
  about : ∀ id attempt action, w.running id = some attempt →
    attempt.phase.action? = some action → action.receiptId? = some id

/-! ### Steps keep the world well formed -/

variable {w w' : JoinWorld} {id : ReceiptId}

theorem Wf.init : Wf {} where
  nodup := List.nodup_nil
  parked receipt h := by cases h
  own id attempt h := by cases h
  about id attempt action h := by cases h

/-- Replacing the running join of one id by another about the same receipt. -/
theorem Wf.setRunning (hw : w.Wf) {attempt : Option JoinAttempt}
    (hown : ∀ a, attempt = some a → a.receipt.id = id)
    (habout : ∀ a action, attempt = some a → a.phase.action? = some action →
      action.receiptId? = some id) : (w.setRunning id attempt).Wf where
  nodup := hw.nodup
  parked := hw.parked
  own := by
    intro id' a ha
    by_cases hid : id' = id
    · subst hid
      exact hown a (setRunning_running_self w id' attempt ▸ ha)
    · exact hw.own id' a (setRunning_running_of_ne hid attempt ▸ ha)
  about := by
    intro id' a action ha haction
    by_cases hid : id' = id
    · subst hid
      exact habout a action (setRunning_running_self w id' attempt ▸ ha) haction
    · exact hw.about id' a action (setRunning_running_of_ne hid attempt ▸ ha) haction

theorem Wf.setNone (hw : w.Wf) : (w.setRunning id none).Wf :=
  hw.setRunning (fun _ h => nomatch h) (fun _ _ h => nomatch h)

/-- A join keeps to its receipt when it goes on in another phase. -/
theorem Wf.setPhase (hw : w.Wf) {attempt : JoinAttempt} (hrun : w.running id = some attempt)
    {phase : JoinPhase} (hphase : ∀ action, phase.action? = some action →
      action.receiptId? = some id) :
    (w.setRunning id (some { attempt with phase })).Wf := by
  refine hw.setRunning ?_ ?_
  · intro a ha
    cases ha
    exact hw.own id attempt hrun
  · intro a action ha haction
    cases ha
    exact hphase action haction

theorem fold_ids_nodup {state : ReceiptLedgerState} (hnd : state.ids.Nodup)
    (signal : LedgerSignal) : (state.fold signal).ids.Nodup := by
  cases signal with
  | park receipt => exact ReceiptLedgerState.park_ids_nodup hnd receipt
  | setStatus receiptId status =>
    have hids : (state.setStatus receiptId status).ids = state.ids :=
      ReceiptLedgerState.setStatus_ids
    exact hids ▸ hnd

/-- Every step keeps the world well formed. -/
theorem Wf.step (hw : w.Wf) {act : JoinAct} (h : w.step act = some w') : w'.Wf := by
  cases step_turn h with
  | forward receipt hparked =>
    refine ⟨hw.nodup, ?_, hw.own, hw.about⟩
    intro r hr
    rcases List.mem_append.1 hr with hold | hnew
    · exact hw.parked r hold
    · cases List.mem_singleton.1 hnew
      exact hparked
  | query => exact ⟨hw.nodup, hw.parked, hw.own, hw.about⟩
  | land signal hmem =>
    exact ⟨fold_ids_nodup hw.nodup signal, fun r hr => hw.parked r (List.mem_of_mem_erase hr),
      hw.own, hw.about⟩
  | start receipt =>
    unfold startJoin
    split
    · exact hw
    · have hset : (w.setRunning receipt.id (some { number := w.started, receipt })).Wf :=
        hw.setRunning (fun a ha => by cases ha; rfl) (fun a action ha haction => by
          cases ha; cases haction)
      exact ⟨hset.nodup, hset.parked, hset.own, hset.about⟩
  | leave outcome now hrun => exact hw.setNone
  | @plan id number receipt status outcome now hrun hstatus =>
    refine hw.setPhase hrun ?_
    intro action haction
    cases haction
    have hid : receipt.id = id := hw.own id _ hrun
    rw [planJoin_receiptId hstatus, hid]
  | @act id number receipt action before took returns hrun htake hreturns =>
    have hset : (w.setRunning id
        (some ⟨number, receipt, .afterAct action before took returns⟩)).Wf := by
      refine hw.setPhase hrun ?_
      intro action' haction
      rw [JoinPhase.afterAct_action?] at haction
      cases haction
      exact hw.about id _ action hrun rfl
    exact ⟨hset.nodup, hset.parked, hset.own, hset.about⟩
  | @save id number receipt action status before sent returns hrun hstatus hreturns =>
    have hset : (w.setRunning id (if returns then none
        else some ⟨number, receipt, .saving action (before || sent)⟩)).Wf := by
      cases returns with
      | true => exact hw.setNone
      | false =>
        refine hw.setPhase hrun ?_
        intro action' haction
        cases haction
        exact hw.about id _ action hrun rfl
    refine ⟨hset.nodup, ?_, hset.own, hset.about⟩
    intro r hr
    rcases List.mem_append.1 hr with hold | hnew
    · exact hw.parked r hold
    · cases sent with
      | true => cases List.mem_singleton.1 hnew
      | false => cases hnew
  | fail hrun => exact hw.setNone

/-! ### Steps on the latch -/

/-- The latch of a receipt reads only what concerns the receipt. -/
theorem latch_congr (hheld : w'.ledger.status? id = w.ledger.status? id)
    (hknown : JoinEvent.parked id ∈ w'.log ↔ JoinEvent.parked id ∈ w.log)
    (hwrites : w'.inFlight.filterMap (LedgerSignal.write id) =
      w.inFlight.filterMap (LedgerSignal.write id))
    (hrun : (w'.running id).map JoinAttempt.worker = (w.running id).map JoinAttempt.worker)
    (hacts : deliverers w'.log id = deliverers w.log id) : w'.latch id = w.latch id := by
  unfold latch
  rw [hheld, hwrites, hrun, hacts, propext hknown]

theorem latch_setRunning_self (w : JoinWorld) (id : ReceiptId) (attempt : Option JoinAttempt) :
    (w.setRunning id attempt).latch id =
      { w.latch id with worker := attempt.map JoinAttempt.worker } := by
  unfold latch
  rw [setRunning_running_self]
  rfl

theorem latch_setRunning_of_ne {id' : ReceiptId} (hne : id ≠ id')
    (attempt : Option JoinAttempt) : (w.setRunning id' attempt).latch id = w.latch id :=
  latch_congr rfl Iff.rfl rfl (by rw [setRunning_running_of_ne hne]) rfl

/-- The worker of the latch is the running join. -/
theorem latch_worker {attempt : JoinAttempt} (hrun : w.running id = some attempt) :
    (w.latch id).worker = some attempt.worker := by
  unfold latch
  rw [hrun]
  rfl

theorem latch_forward (receipt : Receipt) :
    ({ w with inFlight := w.inFlight ++ [.park receipt],
              copies := receipt :: w.copies } : JoinWorld).latch id = w.latch id := by
  refine latch_congr rfl Iff.rfl ?_ rfl rfl
  rw [List.filterMap_append]
  exact List.append_nil _

theorem steps_start (receipt : Receipt) :
    LatchSteps (w.latch id) ((w.startJoin receipt).latch id) := by
  unfold startJoin
  cases hrun : w.running receipt.id with
  | some _ => exact .refl
  | none =>
    have hlatch : ({ w.setRunning receipt.id (some { number := w.started, receipt }) with
        started := w.started + 1 } : JoinWorld).latch id =
        (w.setRunning receipt.id (some { number := w.started, receipt })).latch id := rfl
    rw [hlatch]
    by_cases hid : id = receipt.id
    · subst hid
      rw [latch_setRunning_self]
      have hnone : (w.latch receipt.id).worker = none := by
        unfold latch
        rw [hrun]
        rfl
      exact .single (.hire w.started hnone)
    · rw [latch_setRunning_of_ne hid]

theorem steps_leave {id' : ReceiptId} {attempt : JoinAttempt}
    (hrun : w.running id' = some attempt)
    (hsent : attempt.worker.aim = some .matched → attempt.worker.acted = true →
      attempt.worker.sent = true) :
    LatchSteps (w.latch id) ((w.setRunning id' none).latch id) := by
  by_cases hid : id = id'
  · subst hid
    rw [latch_setRunning_self]
    exact .single (.dismiss (latch_worker hrun) hsent)
  · rw [latch_setRunning_of_ne hid]

theorem steps_plan {id' : ReceiptId} {number : Nat} {receipt : Receipt} {outcome : MatchOutcome}
    {now : Datetime} {status : ReceiptStatus}
    (hrun : w.running id' = some ⟨number, receipt, .matching⟩)
    (hkeeps : Keeps ⟨w, .plan id' outcome now⟩)
    (hstatus : resultingStatus (planJoin receipt outcome now) = some status) :
    LatchSteps (w.latch id) ((w.setRunning id'
      (some ⟨number, receipt, .acting (planJoin receipt outcome now) false⟩)).latch id) := by
  by_cases hid : id = id'
  · subst hid
    have hstep := Lib.Latch.Step.aim (latch_worker hrun) rfl (hkeeps _ status hrun hstatus)
    have haim : ({ JoinAttempt.worker ⟨number, receipt, .matching⟩ with aim := some status } :
        Lib.Worker ReceiptStatus) =
        JoinAttempt.worker ⟨number, receipt, .acting (planJoin receipt outcome now) false⟩ := by
      rw [← hstatus]
      rfl
    rw [haim] at hstep
    rw [latch_setRunning_self]
    exact .single hstep
  · rw [latch_setRunning_of_ne hid]

/-- An action delivers a receipt where it is about it and leaves it matched. -/
theorem delivery_acted (number : Nat) (action : JoinAction) :
    JoinEvent.delivery id (.acted number action) =
      if resultingStatus action = some .matched ∧ action.receiptId? = some id then some number
      else none := by
  cases action with
  | signalTransaction txnId receiptId =>
    simp [JoinEvent.delivery, resultingStatus, JoinAction.receiptId?]
  | _ => simp [JoinEvent.delivery, resultingStatus]

theorem canTake_known {ledger : ReceiptLedgerState} {action : JoinAction}
    (h : canTake ledger action = true) (hmatched : resultingStatus action = some .matched)
    (hid : action.receiptId? = some id) : ledger.status? id ≠ none := by
  cases action with
  | signalTransaction txnId receiptId =>
    cases hid
    obtain ⟨receipt, hget⟩ := Option.isSome_iff_exists.1 h
    unfold ReceiptLedgerState.status?
    rw [hget]
    exact Option.some_ne_none _
  | _ => cases hmatched

theorem steps_act (hw : w.Wf) {id' : ReceiptId} {number : Nat} {receipt : Receipt}
    {action : JoinAction} {before took returns : Bool}
    (hrun : w.running id' = some ⟨number, receipt, .acting action before⟩)
    (htake : took → canTake w.ledger action) (hreturns : returns → took) :
    LatchSteps (w.latch id)
      (({ w.setRunning id' (some ⟨number, receipt, .afterAct action before took returns⟩) with
          log := w.log ++ if took then [.acted number action] else [] } : JoinWorld).latch id) := by
  have habout : action.receiptId? = some id' := hw.about id' _ action hrun rfl
  have hset :
      ({ w.setRunning id' (some ⟨number, receipt, .afterAct action before took returns⟩) with
      log := w.log ++ if took then [.acted number action] else [] } : JoinWorld).latch id =
      { (w.setRunning id'
          (some ⟨number, receipt, .afterAct action before took returns⟩)).latch id with
        acts := deliverers (w.log ++ if took then [.acted number action] else []) id } := by
    unfold latch
    congr 1
    cases took <;> simp [setRunning]
  rw [hset]
  by_cases hid : id = id'
  · subst hid
    rw [latch_setRunning_self]
    cases took with
    | false =>
      have hreturn : returns = false := by
        cases returns with
        | false => rfl
        | true => exact absurd (hreturns rfl) Bool.false_ne_true
      subst hreturn
      have hsame : (some (⟨number, receipt, .afterAct action before false false⟩ :
          JoinAttempt)).map JoinAttempt.worker = (w.latch id).worker := by
        rw [latch_worker hrun]
        cases before <;> rfl
      rw [hsame]
      simp only [Bool.false_eq_true, if_false, List.append_nil]
      exact .refl
    | true =>
      have hacted : (some (⟨number, receipt, .afterAct action before true returns⟩ :
          JoinAttempt)).map JoinAttempt.worker =
          some { JoinAttempt.worker ⟨number, receipt, .acting action before⟩ with
            acted := true } := by
        cases before <;> cases returns <;> rfl
      rw [hacted]
      have hdeliver : deliverers (w.log ++ [.acted number action]) id =
          (w.latch id).acts ++ if resultingStatus action = some .matched then [number] else [] := by
        unfold deliverers latch deliverers
        rw [List.filterMap_append]
        congr 1
        by_cases hmatched : resultingStatus action = some .matched
        · simp [delivery_acted, hmatched, habout]
        · simp [delivery_acted, hmatched]
      simp only [if_true, hdeliver]
      by_cases hmatched : resultingStatus action = some .matched
      · rw [if_pos hmatched]
        exact .single (.act (latch_worker hrun) hmatched rfl
          (canTake_known (htake rfl) hmatched habout))
      · rw [if_neg hmatched, List.append_nil]
        exact .single (.work (latch_worker hrun) hmatched)
  · rw [latch_setRunning_of_ne hid]
    have hsame : deliverers (w.log ++ if took then [.acted number action] else []) id =
        (w.latch id).acts := by
      unfold deliverers latch deliverers
      rw [List.filterMap_append]
      cases took with
      | false => simp
      | true =>
        have hother : ¬ action.receiptId? = some id := by
          rw [habout]
          intro heq
          exact hid (Option.some.inj heq).symm
        simp [delivery_acted, hother]
    rw [hsame]

theorem steps_save (hw : w.Wf) {id' : ReceiptId} {number : Nat} {receipt : Receipt}
    {action : JoinAction} {status : ReceiptStatus} {before sent returns : Bool}
    (hrun : w.running id' = some ⟨number, receipt, .saving action before⟩)
    (hstatus : resultingStatus action = some status) (hreturns : returns → sent) :
    LatchSteps (w.latch id)
      (({ w.setRunning id' (if returns then none
            else some ⟨number, receipt, .saving action (before || sent)⟩) with
          inFlight := w.inFlight ++ if sent then [.setStatus receipt.id status] else [] } :
        JoinWorld).latch id) := by
  have hown : receipt.id = id' := hw.own id' _ hrun
  have hset : ({ w.setRunning id' (if returns then none
        else some ⟨number, receipt, .saving action (before || sent)⟩) with
      inFlight := w.inFlight ++ if sent then [.setStatus receipt.id status] else [] } :
        JoinWorld).latch id =
      { (w.setRunning id' (if returns then none
          else some ⟨number, receipt, .saving action (before || sent)⟩)).latch id with
        writes := (w.latch id).writes ++ if sent ∧ id' = id then [status] else [] } := by
    unfold latch
    congr 1
    rw [List.filterMap_append]
    congr 1
    by_cases hid : id' = id
    · cases sent <;> simp [LedgerSignal.write, hown, hid]
    · cases sent <;> simp [LedgerSignal.write, hown, hid]
  rw [hset]
  by_cases hid : id = id'
  · subst hid
    rw [latch_setRunning_self]
    cases sent with
    | false =>
      have hreturn : returns = false := by
        cases returns with
        | false => rfl
        | true => exact absurd (hreturns rfl) Bool.false_ne_true
      subst hreturn
      have hsame : (some (⟨number, receipt, .saving action (before || false)⟩ :
          JoinAttempt)).map JoinAttempt.worker = (w.latch id).worker := by
        rw [latch_worker hrun]
        cases before <;> rfl
      simp only [Bool.false_eq_true, if_false, false_and, List.append_nil, hsame]
      exact .refl
    | true =>
      have hsend : Lib.Latch.Step ReceiptStatus.Final .matched (w.latch id) _ :=
        .send (latch_worker hrun) hstatus
      have hworker : (some (⟨number, receipt, .saving action (before || true)⟩ :
          JoinAttempt)).map JoinAttempt.worker =
          some { JoinAttempt.worker ⟨number, receipt, .saving action before⟩ with
            sent := true } := by
        cases before <;> rfl
      cases returns with
      | false =>
        simp only [Bool.false_eq_true, if_false, true_and, if_true, hworker]
        exact .single hsend
      | true =>
        simp only [if_true, true_and]
        exact .tail (.single hsend) (.dismiss rfl fun _ _ => rfl)
  · rw [latch_setRunning_of_ne hid]
    have hother : ¬ (sent = true ∧ id' = id) := fun h => hid h.2.symm
    rw [if_neg hother, List.append_nil]

theorem write_eq_some_iff {status : ReceiptStatus} (signal : LedgerSignal) :
    signal.write id = some status ↔ signal = .setStatus id status := by
  cases signal with
  | park receipt => simp [LedgerSignal.write]
  | setStatus receiptId status' =>
    simp only [LedgerSignal.write, LedgerSignal.setStatus.injEq]
    by_cases hid : receiptId = id
    · simp [hid]
    · simp [hid]

theorem steps_setStatus {receiptId : ReceiptId} {status : ReceiptStatus}
    (hmem : LedgerSignal.setStatus receiptId status ∈ w.inFlight) :
    LatchSteps (w.latch id)
      (({ w with ledger := w.ledger.setStatus receiptId status,
                 inFlight := w.inFlight.erase (.setStatus receiptId status),
                 log := w.log ++ [] } : JoinWorld).latch id) := by
  by_cases hid : id = receiptId
  · subst hid
    have hwrite : status ∈ (w.latch id).writes :=
      List.mem_filterMap.2 ⟨_, hmem, (write_eq_some_iff _).2 rfl⟩
    have hland : Lib.Latch.Step ReceiptStatus.Final .matched (w.latch id) _ := .land hwrite
    have hlatch : ({ w with ledger := w.ledger.setStatus id status,
                            inFlight := w.inFlight.erase (.setStatus id status),
                            log := w.log ++ [] } : JoinWorld).latch id =
        { w.latch id with held := (w.latch id).held.map fun _ => status,
                          writes := (w.latch id).writes.erase status } := by
      unfold latch
      congr 1
      · exact ReceiptLedgerState.status?_setStatus_self
      · rw [List.append_nil]
      · exact Lib.filterMap_erase (fun c => write_eq_some_iff c) w.inFlight
      · rw [List.append_nil]
    rw [hlatch]
    exact .single hland
  · have hlatch : ({ w with ledger := w.ledger.setStatus receiptId status,
                            inFlight := w.inFlight.erase (.setStatus receiptId status),
                            log := w.log ++ [] } : JoinWorld).latch id = w.latch id := by
      refine latch_congr (ReceiptLedgerState.status?_setStatus_of_ne hid) ?_ ?_ rfl ?_
      · rw [List.append_nil]
      · refine Lib.filterMap_erase_of_none ?_ w.inFlight
        exact if_neg (Ne.symm hid)
      · rw [List.append_nil]
    rw [hlatch]

theorem steps_park (hw : w.Wf) (hsound : (w.latch id).Sound ReceiptStatus.Final .matched)
    {receipt : Receipt} (hmem : LedgerSignal.park receipt ∈ w.inFlight)
    (hkeeps : Keeps ⟨w, .land (.park receipt)⟩) :
    LatchSteps (w.latch id)
      (({ w with ledger := w.ledger.park receipt, inFlight := w.inFlight.erase (.park receipt),
                 log := w.log ++ [.parked receipt.id] } : JoinWorld).latch id) := by
  have hlatch : ({ w with ledger := w.ledger.park receipt,
                          inFlight := w.inFlight.erase (.park receipt),
                          log := w.log ++ [.parked receipt.id] } : JoinWorld).latch id =
      { w.latch id with held := (w.ledger.park receipt).status? id,
                        known := (w.latch id).known ∨ id = receipt.id } := by
    unfold latch
    congr 1
    · simp
    · exact Lib.filterMap_erase_of_none rfl w.inFlight
    · unfold deliverers
      rw [List.filterMap_append]
      exact List.append_nil _
  rw [hlatch]
  by_cases hid : id = receipt.id
  · subst hid
    by_cases hin : receipt.id ∈ w.ledger.ids
    · -- a known id: nothing changes
      have hknown : (w.latch receipt.id).known := by
        refine hsound.known_of_held ?_
        intro hnone
        exact ReceiptLedgerState.status?_eq_none_iff.1 hnone hin
      have hsame : ((w.latch receipt.id).known ∨ receipt.id = receipt.id) =
          (w.latch receipt.id).known := propext ⟨fun _ => hknown, fun h => .inl h⟩
      rw [ReceiptLedgerState.park_of_mem hin, hsame]
      exact .refl
    · have hnew : ¬ (w.latch receipt.id).known := hkeeps.resolve_left hin
      have hopen : ¬ ReceiptStatus.Final receipt.status := by
        rw [hw.parked receipt hmem]
        exact Bool.noConfusion
      have hcreate : Lib.Latch.Step ReceiptStatus.Final .matched (w.latch receipt.id) _ :=
        .create hnew hopen
      have htrue : ((w.latch receipt.id).known ∨ receipt.id = receipt.id) = True :=
        propext ⟨fun _ => trivial, fun _ => .inr rfl⟩
      rw [htrue]
      rcases ReceiptLedgerState.status?_park_self hw.nodup hin with hnone | hsome
      · rw [hnone]
        exact .tail (.single hcreate) .drop
      · rw [hsome]
        exact .single hcreate
  · have hsame : ((w.latch id).known ∨ id = receipt.id) = (w.latch id).known :=
      propext ⟨fun h => h.resolve_right hid, fun h => .inl h⟩
    rw [hsame]
    rcases ReceiptLedgerState.status?_park_of_ne hw.nodup hid with hnone | hstay
    · rw [hnone]
      exact .single .drop
    · rw [hstay]
      exact .refl

theorem signals_of_matched {action : JoinAction}
    (h : resultingStatus action = some .matched) :
    ∃ txnId receiptId, action = .signalTransaction txnId receiptId := by
  cases action with
  | signalTransaction txnId receiptId => exact ⟨txnId, receiptId, rfl⟩
  | _ => cases h

/-- Under the condition a step of the world is steps of every receipt's latch. -/
theorem steps_of_step (hw : w.Wf) (hsound : (w.latch id).Sound ReceiptStatus.Final .matched)
    {act : JoinAct} (hkeeps : Keeps ⟨w, act⟩) (h : w.step act = some w') :
    LatchSteps (w.latch id) (w'.latch id) := by
  cases step_turn h with
  | forward receipt hparked => rw [latch_forward]
  | query => exact .refl
  | land signal hmem =>
    cases signal with
    | park receipt => exact steps_park hw hsound hmem hkeeps
    | setStatus receiptId status => exact steps_setStatus hmem
  | start receipt => exact steps_start receipt
  | leave outcome now hrun => exact steps_leave hrun fun haim => nomatch haim
  | plan outcome now hrun hstatus => exact steps_plan hrun hkeeps hstatus
  | act took returns hrun htake hreturns => exact steps_act hw hrun htake hreturns
  | save sent returns hrun hstatus hreturns => exact steps_save hw hrun hstatus hreturns
  | @fail _ attempt hrun =>
    refine steps_leave hrun ?_
    intro haim hacted
    obtain ⟨action, haction, hmatched⟩ := Option.bind_eq_some_iff.1 haim
    obtain ⟨txnId, receiptId, rfl⟩ := signals_of_matched hmatched
    exact hkeeps attempt txnId receiptId hrun haction hacted

/-- The world is well formed and every receipt's latch sound. -/
structure Kept (w : JoinWorld) : Prop where
  wf : w.Wf
  sound : ∀ id, (w.latch id).Sound ReceiptStatus.Final .matched

theorem Kept.init : Kept {} where
  wf := .init
  sound id := by
    have hlatch : ({} : JoinWorld).latch id = {} := by
      unfold latch
      congr 1
      exact propext ⟨fun h => (nomatch h), False.elim⟩
    rw [hlatch]
    exact Lib.Latch.sound_init _ _

theorem Kept.step (hw : w.Kept) {act : JoinAct} (hkeeps : Keeps ⟨w, act⟩)
    (h : w.step act = some w') : w'.Kept where
  wf := hw.wf.step h
  sound id := (hw.sound id).steps rfl (steps_of_step hw.wf (hw.sound id) hkeeps h)

theorem Kept.run {beats : List JoinBeat} (hw : w.Kept) (hrun : JoinRun w beats w')
    (hkeeps : ∀ beat ∈ beats, Keeps beat) : w'.Kept := by
  refine hrun.invariant_of ?_ hkeeps hw
  intro u beat v hu hbeat hstep
  cases hstep with
  | step hs => exact hu.step hbeat hs

/-- A final status stays through a run, or the receipt has left the table. -/
theorem Kept.final_stays {beats : List JoinBeat} (hw : w.Kept) (hrun : JoinRun w beats w')
    (hkeeps : ∀ beat ∈ beats, Keeps beat) {status : ReceiptStatus} (hfinal : status.Final)
    (hheld : w.ledger.status? id = some status) : (w'.latch id).Stays status := by
  have hboth : w'.Kept ∧ (w'.latch id).Stays status := by
    refine hrun.invariant_of (I := fun u => u.Kept ∧ (u.latch id).Stays status) ?_ hkeeps
      ⟨hw, .inl hheld⟩
    rintro u beat v ⟨hu, hstays⟩ hbeat hstep
    cases hstep with
    | step hs =>
      exact ⟨hu.step hbeat hs, (steps_of_step hu.wf (hu.sound id) hbeat hs).final_stays
        (hu.sound id) rfl hfinal hstays⟩
  exact hboth.2

end JoinWorld

/-- **Act once.** On every run that keeps to the condition at most one join delivers a receipt, and
once its status is matched or expired the ledger never holds it under another. -/
theorem delivered_once {before after : List JoinBeat} {w₁ w₂ : JoinWorld}
    (hbefore : JoinRun {} before w₁) (hafter : JoinRun w₁ after w₂)
    (hkeeps : ∀ beat ∈ before ++ after, JoinWorld.Keeps beat) (id : ReceiptId) :
    (∀ m ∈ deliverers w₂.log id, ∀ n ∈ deliverers w₂.log id, m = n) ∧
      ∀ status, w₁.ledger.status? id = some status → status.Final →
        w₂.ledger.status? id = some status ∨ w₂.ledger.status? id = none := by
  have h₁ : ∀ beat ∈ before, JoinWorld.Keeps beat :=
    fun beat hbeat => hkeeps beat (List.mem_append_left _ hbeat)
  have h₂ : ∀ beat ∈ after, JoinWorld.Keeps beat :=
    fun beat hbeat => hkeeps beat (List.mem_append_right _ hbeat)
  have hw₁ : w₁.Kept := JoinWorld.Kept.init.run hbefore h₁
  have hw₂ : w₂.Kept := hw₁.run hafter h₂
  constructor
  · intro m hm n hn
    exact (hw₂.sound id).once hm hn
  · intro status hheld hfinal
    exact (hw₁.final_stays hafter h₂ hfinal hheld).imp_right fun h => h.1

/-! ## A stale copy -/

def coffeeReceipt : Receipt := { id := "m1", parkedAt := 0, sourceThreadId := some "t1" }

/-- The receipt arrives, the poll lists it, its first join delivers it and its status lands. -/
def coffeeMatched : List JoinAct :=
  [.forward coffeeReceipt, .land (.park coffeeReceipt), .start coffeeReceipt, .query,
    .plan "m1" (.confident "y1") 1, .act "m1" true true, .save "m1" true true,
    .land (.setStatus "m1" .matched)]

/-- The first join alone keeps the law, and so does a second one that finds nothing. -/
theorem coffee_delivered_once :
    ∃ w₁ w₂ : JoinWorld, deliverers w₂.log "m1" = [0] ∧
      w₁.ledger.status? "m1" = some .matched ∧
      (w₂.ledger.status? "m1" = some .matched ∨ w₂.ledger.status? "m1" = none) := by
  have hexec : ∃ b₁ b₂ b₃ b₄ b₅ b₆ b₇ b₈ c₁ c₂ w₁ w₂,
      Lib.exec JoinWorld.step {} coffeeMatched = some ([b₁, b₂, b₃, b₄, b₅, b₆, b₇, b₈], w₁) ∧
      Lib.exec JoinWorld.step w₁ [.start coffeeReceipt, .plan "m1" .noMatch 2] =
        some ([c₁, c₂], w₂) ∧
      deliverers w₂.log "m1" = [0] ∧ w₁.ledger.status? "m1" = some .matched ∧
      ∀ beat ∈ [b₁, b₂, b₃, b₄, b₅, b₆, b₇, b₈] ++ [c₁, c₂], JoinWorld.Keeps beat := by
    refine ⟨_, _, _, _, _, _, _, _, _, _, _, _, rfl, rfl, rfl, rfl, ?_⟩
    simp only [List.cons_append, List.nil_append, List.forall_mem_cons, List.not_mem_nil,
      false_imp_iff, implies_true, and_true]
    refine ⟨trivial, .inr List.not_mem_nil, trivial, trivial, ?_, trivial, trivial, trivial,
      trivial, ?_⟩
    · intro attempt status hrun hstatus
      cases hrun
      cases hstatus
      refine ⟨fun t hheld hfinal => ?_, fun t hmem => (nomatch hmem)⟩
      cases hheld
      cases hfinal
    · intro attempt status hrun hstatus
      cases hrun
      cases hstatus
  obtain ⟨b₁, b₂, b₃, b₄, b₅, b₆, b₇, b₈, c₁, c₂, w₁, w₂, h₁, h₂, hdeliver, hheld, hkeeps⟩ := hexec
  have hlaw := delivered_once (Lib.exec_run h₁) (Lib.exec_run h₂) hkeeps "m1"
  exact ⟨w₁, w₂, hdeliver, hheld, hlaw.2 .matched hheld rfl⟩

/-- A join started with the copy listed before the first one's status landed delivers the receipt
again; where the model hesitates this time, the status goes back from matched to asked. -/
theorem stale_copy_acts_again :
    (∃ beats w, JoinRun {} beats w ∧ deliverers w.log "m1" = [0, 1]) ∧
      ∃ before after w₁ w₂, JoinRun {} before w₁ ∧ JoinRun w₁ after w₂ ∧
        w₁.ledger.status? "m1" = some .matched ∧ w₂.ledger.status? "m1" = some .asked := by
  constructor
  · have hexec : ∃ beats w, Lib.exec JoinWorld.step {} (coffeeMatched ++
        [.start coffeeReceipt, .plan "m1" (.confident "y1") 2, .act "m1" true true]) =
          some (beats, w) ∧ deliverers w.log "m1" = [0, 1] := ⟨_, _, rfl, rfl⟩
    obtain ⟨beats, w, hexec, hdeliver⟩ := hexec
    exact ⟨beats, w, Lib.exec_run hexec, hdeliver⟩
  · have hexec : ∃ before after w₁ w₂, Lib.exec JoinWorld.step {} coffeeMatched =
          some (before, w₁) ∧
        Lib.exec JoinWorld.step w₁ [.start coffeeReceipt,
          .plan "m1" (.ambiguous ⟨["y1", "y2"], Nat.le_refl 2⟩) 2, .act "m1" true true,
          .save "m1" true true, .land (.setStatus "m1" .asked)] = some (after, w₂) ∧
        w₁.ledger.status? "m1" = some .matched ∧ w₂.ledger.status? "m1" = some .asked :=
      ⟨_, _, _, _, rfl, rfl, rfl, rfl⟩
    obtain ⟨before, after, w₁, w₂, h₁, h₂, hmatched, hasked⟩ := hexec
    exact ⟨before, after, w₁, w₂, Lib.exec_run h₁, Lib.exec_run h₂, hmatched, hasked⟩

end YnabAgent
