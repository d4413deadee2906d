import YnabAgent.Workflow.Carried
import YnabAgent.Workflow.Inbounds

/-!
# A run that continues as new

At the end of a step in a resting state, with an empty queue and a long history, the driver starts
over from `resumeParams`. They carry the transaction, the thread, the deadlines, the queue and the
counter, but not a snapshot the driver was notified of (`visible` is all the rest). From `OPEN`,
`LAPSED` and `AWAITING_HUMAN` nobody looks at that snapshot again, and `visible_step` is then a
bisimulation; `HOLD_AMAZON` and `DISCOVERED` wait for it.
-/

namespace YnabAgent

/-- The states that wait for a snapshot. -/
def TxnState.awaitsSnapshot : TxnState → Bool
  | .discovered | .holdAmazon => true
  | _ => false

/-- The waits whose condition looks at the snapshot. -/
def Wait.readsSnapshot : Wait → Bool
  | .discovered | .hold _ => true
  | _ => false

/-- A wait entered in another state does not look at it. -/
theorem Wait.Fits.reads {w : Wait} {state : TxnState} (h : w.Fits state)
    (hstate : state.awaitsSnapshot = false) : w.readsSnapshot = false := by
  cases w with
  | discovered => cases h; cases hstate
  | hold deadline => cases h; cases hstate
  | _ => rfl

/-- Only a state that waits for a snapshot leads to one. -/
theorem Move.awaitsSnapshot {now : Datetime} {policy : LifecyclePolicy} {txn next : Transaction}
    {event : LifecycleEvent} {effects : List Effect} (h : Move now policy txn event next effects)
    (hnext : next.state.awaitsSnapshot = true) : txn.state.awaitsSnapshot = true := by
  cases h with
  | stay => exact hnext
  | hold s snapshot => rfl
  | buffer s signal => rfl
  | _ => cases hnext

namespace Driver

/-- The same act, where the history has length `n`. -/
def Act.withHistory (n : ℕ) : Act → Act
  | .submitInbound signal => .submitInbound signal
  | .notifySnapshot snapshot => .notifySnapshot snapshot
  | .returned m result => .returned { m with historyLength := n } result
  | .failed m => .failed { m with historyLength := n }
  | .wake m => .wake { m with historyLength := n }
  | .timeout m => .timeout { m with historyLength := n }

/-- All of a driver but the snapshot it was notified of. -/
def visible (d : Driver) : Driver :=
  { d with snapshotReady := none }

variable {d d₁ d₂ d' kept rolled : Driver} {now : Datetime} {n : ℕ} {resume : Resume}

/-! ## Rolling -/

/-- What one act comes to with a short history and with another: the same, or the end of a step at
which the second continued as new. -/
inductive Rolls : Driver → Driver → Prop
  | same (d : Driver) : Rolls d d
  | rolled (d : Driver) (hresting : d.txn.state.resting = true) (hqueue : d.inbound = []) :
      Rolls d.beginStep d.continueAsNew

theorem finish_rolls (d : Driver) (resume : Resume) :
    Rolls (d.finish ⟨now, 0⟩ resume) (d.finish ⟨now, n⟩ resume) := by
  have hend : Rolls (d.endStep ⟨now, 0⟩) (d.endStep ⟨now, n⟩) := by
    unfold endStep
    rw [if_neg fun h => Nat.not_lt_zero _ h.2.2]
    split
    · rename_i h
      exact .rolled d h.1 h.2.1
    · exact .same _
  cases resume with
  | nextStep => exact hend
  | awaitSnapshot => exact .same _
  | unlessLeft before timer w =>
    simp only [finish]
    split
    · exact .same _
    · exact hend

theorem execute_rolls (resume : Resume) (effects : List Effect) (d : Driver) :
    Rolls (d.execute ⟨now, 0⟩ resume effects) (d.execute ⟨now, n⟩ resume effects) := by
  induction effects generalizing d with
  | nil => exact finish_rolls d resume
  | cons e rest ih =>
    unfold execute
    cases d.perform e with
    | settled d' => exact ih d'
    | awaits c d' => exact .same _

section steps
variable {text : PyText} {δ : Type} [DecidableEq δ] {digest : TargetState → δ}

theorem dispatch_rolls (d d₁ : Driver) (event : LifecycleEvent) (rest : List Effect)
    (resume : Resume) : Rolls (d.orStuck (d₁.dispatch ⟨now, 0⟩ event rest resume))
      (d.orStuck (d₁.dispatch ⟨now, n⟩ event rest resume)) := by
  unfold dispatch
  cases advance now defaultPolicy d₁.txn event with
  | error e => exact .same _
  | ok tr => exact execute_rolls resume _ _

theorem onReturn_rolls (d : Driver) (pc : Suspended) (result : ActivityResult) :
    Option.Rel Rolls (d.onReturn text digest ⟨now, 0⟩ pc result)
      (d.onReturn text digest ⟨now, n⟩ pc result) := by
  unfold onReturn
  split
  · exact .some (dispatch_rolls _ _ _ _ _)
  · exact .some (dispatch_rolls _ _ _ _ _)
  · exact .some (dispatch_rolls _ _ _ _ _)
  · exact .some (dispatch_rolls _ _ _ _ _)
  · exact .some (dispatch_rolls _ _ _ _ _)
  · exact .some (.same _)
  · exact .some (dispatch_rolls _ _ _ _ _)
  · split
    · exact .some (dispatch_rolls _ _ _ _ _)
    · exact .none
  · exact .some (execute_rolls _ _ _)
  · exact .some (execute_rolls _ _ _)
  · exact .some (execute_rolls _ _ _)
  · exact .some (execute_rolls _ _ _)
  · exact .some (execute_rolls _ _ _)
  · exact .none

theorem onFailure_rolls (d : Driver) (pc : Suspended) :
    Option.Rel Rolls (d.onFailure ⟨now, 0⟩ pc) (d.onFailure ⟨now, n⟩ pc) := by
  unfold onFailure
  split
  · exact .some (execute_rolls _ _ _)
  · exact .some (.same _)
  · exact .none

theorem onWake_rolls (d : Driver) (w : Wait) :
    Option.Rel Rolls (d.onWake text ⟨now, 0⟩ w) (d.onWake text ⟨now, n⟩ w) := by
  have hreceive : ∀ signal queue,
      Option.Rel Rolls (some (d.receive ⟨now, 0⟩ signal queue))
        (some (d.receive ⟨now, n⟩ signal queue)) :=
    fun signal queue => .some (dispatch_rolls _ _ _ _ _)
  unfold onWake
  split
  · split
    · exact .some (dispatch_rolls _ _ _ _ _)
    · exact hreceive _ _
    · exact .none
  · split
    · exact .some (dispatch_rolls _ _ _ _ _)
    · exact hreceive _ _
    · exact .none
  · split
    · exact .some (.same _)
    · exact .none
  · split
    · exact .some (.same _)
    · exact .none
  · split
    · exact hreceive _ _
    · exact .none
  · split
    · exact hreceive _ _
    · exact .none

theorem onTimeout_rolls (d : Driver) (w : Wait) :
    Option.Rel Rolls (d.onTimeout ⟨now, 0⟩ w) (d.onTimeout ⟨now, n⟩ w) := by
  unfold onTimeout
  split
  · split
    · exact .some (dispatch_rolls _ _ _ _ _)
    · exact .none
  · split
    · exact .some (dispatch_rolls _ _ _ _ _)
    · exact .none
  · split
    · split
      · exact .some (.same _)
      · exact .some (dispatch_rolls _ _ _ _ _)
    · exact .none
  · exact .none

/-- A history of another length changes a step only by a roll at its end. -/
theorem step_rolls (n : ℕ) (d : Driver) (act : Act) :
    Option.Rel Rolls (d.step text digest (act.withHistory 0))
      (d.step text digest (act.withHistory n)) := by
  have hsame : ∀ x : Option Driver, Option.Rel Rolls x x := by
    intro x
    cases x with
    | none => exact .none
    | some d => exact .some (.same d)
  cases act with
  | submitInbound signal => exact hsame _
  | notifySnapshot snapshot => exact hsame _
  | returned m result => exact onReturn_rolls d d.pc result
  | failed m => exact onFailure_rolls d d.pc
  | wake m =>
    simp only [Act.withHistory, step]
    split
    · exact onWake_rolls d _
    · exact .none
  | timeout m =>
    simp only [Act.withHistory, step]
    split
    · exact onTimeout_rolls d _
    · exact .none

end steps

/-! ## What a pending snapshot changes -/

@[simp] theorem visible_txn (d : Driver) : d.visible.txn = d.txn := rfl

@[simp] theorem visible_inbound (d : Driver) : d.visible.inbound = d.inbound := rfl

@[simp] theorem visible_threadId (d : Driver) : d.visible.threadId = d.threadId := rfl

@[simp] theorem visible_pc (d : Driver) : d.visible.pc = d.pc := rfl

theorem visible_beginStep (d : Driver) : d.visible.beginStep.visible = d.beginStep.visible := by
  obtain ⟨txn⟩ := d
  cases txn <;> rfl

theorem visible_finish (m : Moment) (d : Driver) (resume : Resume) :
    (d.visible.finish m resume).visible = (d.finish m resume).visible := by
  have hend : (d.visible.endStep m).visible = (d.endStep m).visible := by
    unfold endStep
    have hiff : (d.visible.txn.state.resting = true ∧ d.visible.inbound = [] ∧
        continueAsNewAfter < m.historyLength) ↔ (d.txn.state.resting = true ∧ d.inbound = [] ∧
        continueAsNewAfter < m.historyLength) := Iff.rfl
    by_cases hroll : d.txn.state.resting = true ∧ d.inbound = [] ∧
        continueAsNewAfter < m.historyLength
    · rw [if_pos hroll, if_pos (hiff.2 hroll)]
      rfl
    · rw [if_neg hroll, if_neg (mt hiff.1 hroll)]
      exact visible_beginStep d
  cases resume with
  | nextStep => exact hend
  | awaitSnapshot => rfl
  | unlessLeft before timer w =>
    simp only [finish]
    have hiff : d.visible.txn.state = before ↔ d.txn.state = before := Iff.rfl
    by_cases hstate : d.txn.state = before
    · rw [if_pos hstate, if_pos (hiff.2 hstate)]
      rfl
    · rw [if_neg hstate, if_neg (mt hiff.1 hstate)]
      exact hend

theorem visible_settled {e : Effect} (h : d.perform e = .settled d') :
    d.visible.perform e = .settled d'.visible := by
  cases e with
  | sendThreadMessage purpose detail decision =>
    unfold perform at h
    cases hthread : d.threadId <;> rw [hthread] at h <;> cases h
  | closeThread =>
    simp only [perform, visible_threadId] at h ⊢
    cases hthread : d.threadId <;> rw [hthread] at h <;> cases h
    rfl
  | setTimer timer deadline => cases h; rfl
  | cancelTimer timer => cases h; rfl
  | replayBuffered signals => cases h; rfl
  | _ => cases h

theorem visible_awaits {e : Effect} {c : Call} (h : d.perform e = .awaits c d') :
    d.visible.perform e = .awaits c d'.visible := by
  cases e with
  | sendThreadMessage purpose detail decision =>
    simp only [perform, visible_threadId] at h ⊢
    cases hthread : d.threadId <;> rw [hthread] at h <;> cases h <;> rfl
  | closeThread =>
    simp only [perform, visible_threadId] at h ⊢
    cases hthread : d.threadId <;> rw [hthread] at h <;> cases h
    rfl
  | setTimer timer deadline => cases h
  | cancelTimer timer => cases h
  | replayBuffered signals => cases h
  | _ => cases h; rfl

theorem visible_execute (m : Moment) (resume : Resume) (effects : List Effect) (d : Driver) :
    (d.visible.execute m resume effects).visible = (d.execute m resume effects).visible := by
  induction effects generalizing d with
  | nil => exact visible_finish m d resume
  | cons e rest ih =>
    unfold execute
    cases hperform : d.perform e with
    | settled d' =>
      rw [visible_settled hperform]
      exact ih d'
    | awaits c d' =>
      rw [visible_awaits hperform]
      rfl

section steps
variable {text : PyText} {δ : Type} [DecidableEq δ] {digest : TargetState → δ}

theorem visible_dispatch (m : Moment) (d d₁ : Driver) (event : LifecycleEvent)
    (rest : List Effect) (resume : Resume) :
    (d.visible.orStuck (d₁.visible.dispatch m event rest resume)).visible =
      (d.orStuck (d₁.dispatch m event rest resume)).visible := by
  unfold dispatch
  show (d.visible.orStuck ((advance m.now defaultPolicy d₁.txn event).bind _)).visible = _
  cases advance m.now defaultPolicy d₁.txn event with
  | error e => rfl
  | ok tr =>
    exact visible_execute m resume (tr.effects ++ rest) (syncThreadId { d₁ with txn := tr.next })

theorem visible_onReturn (m : Moment) (d : Driver) (pc : Suspended) (result : ActivityResult) :
    (d.visible.onReturn text digest m pc result).map visible =
      (d.onReturn text digest m pc result).map visible := by
  unfold onReturn
  split
  · exact congrArg some (visible_dispatch m d d _ _ _)
  · exact congrArg some (visible_dispatch m d d _ _ _)
  · exact congrArg some (visible_dispatch m d d _ _ _)
  · exact congrArg some (visible_dispatch m d d _ _ _)
  · exact congrArg some (visible_dispatch m d { d with consumed := d.consumed ++ [_] } _ _ _)
  · rfl
  · exact congrArg some (visible_dispatch m d d _ _ _)
  · simp only [visible_txn]
    split
    · exact congrArg some (visible_dispatch m d d _ _ _)
    · rfl
  · exact congrArg some (visible_execute m _ _ (d.setThreadId _))
  · exact congrArg some (visible_execute m _ _ d)
  · exact congrArg some (visible_execute m _ _ d)
  · exact congrArg some (visible_execute m _ _ d)
  · exact congrArg some (visible_execute m _ _ d)
  · rfl

theorem visible_onFailure (m : Moment) (d : Driver) (pc : Suspended) :
    (d.visible.onFailure m pc).map visible = (d.onFailure m pc).map visible := by
  unfold onFailure
  split
  · exact congrArg some (visible_execute m _ _ d)
  · rfl
  · rfl

theorem visible_receive (m : Moment) (d : Driver) (signal : InboundSignal)
    (queue : List InboundSignal) :
    (d.visible.receive m signal queue).visible = (d.receive m signal queue).visible :=
  visible_dispatch m d { d with inbound := queue } _ _ _

theorem visible_onWake (m : Moment) (d : Driver) {w : Wait} (hw : w.readsSnapshot = false) :
    (d.visible.onWake text m w).map visible = (d.onWake text m w).map visible := by
  cases w with
  | discovered => cases hw
  | hold deadline => cases hw
  | patience deadline =>
    simp only [onWake, visible_txn, visible_inbound]
    split <;> rfl
  | reply =>
    simp only [onWake, visible_txn, visible_inbound]
    split <;> rfl
  | archive deadline =>
    simp only [onWake, visible_inbound]
    split
    · exact congrArg some (visible_receive m d _ _)
    · rfl
  | blocked =>
    simp only [onWake, visible_inbound]
    split
    · exact congrArg some (visible_receive m d _ _)
    · rfl

theorem visible_onTimeout (m : Moment) (d : Driver) (w : Wait) :
    (d.visible.onTimeout m w).map visible = (d.onTimeout m w).map visible := by
  simp only [onTimeout, visible_txn]
  split
  · split
    · exact congrArg some (visible_dispatch m d d _ _ _)
    · rfl
  · split
    · exact congrArg some (visible_dispatch m d d _ _ _)
    · rfl
  · split
    · split
      · rfl
      · exact congrArg some (visible_dispatch m d d _ _ _)
    · rfl
  · rfl

/-- Where no wait looks at it, the snapshot changes nothing but itself. -/
theorem visible_step (d : Driver) (act : Act)
    (hwait : ∀ w, d.pc = .waiting w → w.readsSnapshot = false) :
    (d.visible.step text digest act).map visible = (d.step text digest act).map visible := by
  cases act with
  | submitInbound signal =>
    show Option.map visible (if d.closed then none else _) = _
    simp only [step]
    split <;> rfl
  | notifySnapshot snapshot =>
    show Option.map visible (if d.closed then none else _) = _
    simp only [step]
    split <;> rfl
  | returned m result => exact visible_onReturn m d d.pc result
  | failed m => exact visible_onFailure m d d.pc
  | wake m =>
    simp only [step, visible_pc]
    cases hpc : d.pc with
    | waiting w => exact visible_onWake m d (hwait w hpc)
    | _ => rfl
  | timeout m =>
    simp only [step, visible_pc]
    cases d.pc with
    | waiting w => exact visible_onTimeout m d w
    | _ => rfl

/-! ## After the snapshot -/

/-- The driver is suspended where its transaction has it, past the states that wait for a
snapshot. -/
structure Past (d : Driver) : Prop where
  fits : d.pc.Fits d.txn
  state : d.txn.state.awaitsSnapshot = false

theorem Past.reads (h : Past d) {w : Wait} (hpc : d.pc = .waiting w) :
    w.readsSnapshot = false := by
  have hfits := h.fits
  rw [hpc] at hfits
  exact Wait.Fits.reads hfits h.state

theorem Turn.awaitsSnapshot {act : Act} (h : Turn text digest d act d')
    (hd' : d'.txn.state.awaitsSnapshot = true) : d.txn.state.awaitsSnapshot = true := by
  cases h with
  | fed hfeeds hadv =>
    rw [execute_txn] at hd'
    rw [← hfeeds.same.txn_eq]
    exact (advance_move hadv).awaitsSnapshot hd'
  | opened m threadId hpc =>
    rw [execute_txn] at hd'
    have hstate : (d.txn.withThread threadId).state.awaitsSnapshot = true := hd'
    rwa [Transaction.withThread_state] at hstate
  | wentOn m hpc hc => rw [execute_txn] at hd'; exact hd'
  | unrecorded m hpc => rw [execute_txn] at hd'; exact hd'
  | _ => exact hd'

theorem Past.step {act : Act} (h : Past d) (hstep : d.step text digest act = some d') :
    Past d' := by
  have hturn := step_turn hstep
  refine ⟨hturn.fits h.fits, ?_⟩
  by_contra hawaits
  have hbefore := hturn.awaitsSnapshot (Bool.eq_true_of_not_eq_false hawaits)
  rw [h.state] at hbefore
  cases hbefore

/-! ## The continued run -/

theorem beginStep_continueAsNew (d : Driver) : d.beginStep.continueAsNew = d.continueAsNew := by
  unfold beginStep
  split <;> rfl

@[simp] theorem continueAsNew_snapshotReady (d : Driver) :
    d.continueAsNew.snapshotReady = none := by
  unfold continueAsNew start
  rw [beginStep_snapshotReady]
  rfl

/-- All but the snapshot is carried. -/
theorem visible_continueAsNew (hd : d.Synced) : d.continueAsNew.visible = d.beginStep.visible := by
  have hthread : d.txn.threadId?.or d.threadId = d.threadId := by
    rw [hd]
    exact Option.or_self
  obtain ⟨txn⟩ := d
  unfold continueAsNew start syncThreadId
  simp only [resumeParams, Option.getD_some]
  rw [hthread]
  cases txn <;> rfl

/-- Where a step rolls, what it comes to otherwise is the next step of the same driver. -/
theorem Rolls.of_continueAsNew (h : Rolls kept kept.continueAsNew) :
    kept = kept.continueAsNew ∨ ∃ d : Driver, d.inbound = [] ∧ kept = d.beginStep := by
  generalize hrolled : kept.continueAsNew = rolled at h
  cases h with
  | same => exact .inl rfl
  | rolled d hresting hqueue => exact .inr ⟨d, hqueue, rfl⟩

variable (text digest) in
/-- Under every later sequence of acts both pass through the same states, awaiting the same
activities with the same arguments, with the same queue, deadlines and counter. -/
def Equivalent (d₁ d₂ : Driver) : Prop :=
  ∀ acts, Lib.trace (Driver.step text digest) visible d₁ acts =
    Lib.trace (Driver.step text digest) visible d₂ acts

/-- Past the snapshot, drivers alike but for it stay so. -/
theorem Past.equivalent (h : Past d₁) (halike : d₁.visible = d₂.visible) :
    Equivalent text digest d₁ d₂ := by
  intro acts
  refine Lib.trace_congr (R := fun d₁ d₂ => d₁.visible = d₂.visible ∧ Past d₁) (fun h => h.1) ?_
    acts ⟨halike, h⟩
  rintro d₁ d₂ act ⟨halike, hpast⟩
  have hpc : d₂.pc = d₁.pc := (congrArg pc halike).symm
  have hsteps : (d₁.step text digest act).map visible = (d₂.step text digest act).map visible :=
    calc (d₁.step text digest act).map visible
        = (d₁.visible.step text digest act).map visible :=
          (visible_step d₁ act fun w hw => hpast.reads hw).symm
      _ = (d₂.visible.step text digest act).map visible := by rw [halike]
      _ = (d₂.step text digest act).map visible :=
          visible_step d₂ act fun w hw => hpast.reads (hpc.symm.trans hw)
  cases hstep₁ : d₁.step text digest act with
  | none =>
    rw [hstep₁] at hsteps
    rw [Option.map_eq_none_iff.1 hsteps.symm]
    exact .none
  | some d₁' =>
    rw [hstep₁] at hsteps
    obtain ⟨d₂', hstep₂, halike'⟩ := Option.map_eq_some_iff.1 hsteps.symm
    rw [hstep₂]
    exact .some ⟨halike'.symm, hpast.step hstep₁⟩

/-- A snapshot lost is missed: the run that kept it goes on with it, the run that lost it waits. -/
theorem not_equivalent {snapshot : YnabSnapshot} (hqueue : d.inbound = [])
    (hready : d.snapshotReady = some snapshot) (hawaits : d.txn.state.awaitsSnapshot = true) :
    ¬ Equivalent text digest d.continueAsNew d.beginStep := by
  intro hequiv
  obtain ⟨txn⟩ := d
  simp only at hqueue hready
  subst hqueue hready
  cases txn with
  | discovered s =>
    have htrace := hequiv [.returned { now := 0 } (.snapshot none), .wake { now := 0 }]
    cases htrace
  | holdAmazon s =>
    have htrace := hequiv [.wake { now := 0 }]
    cases htrace
  | _ => cases hawaits

theorem visible_of_none (h : d.snapshotReady = none) : d.visible = d := by
  obtain ⟨txn⟩ := d
  simp only at h
  subst h
  rfl

/-- A roll of a driver with its queue drained. -/
theorem equivalent_beginStep_iff (hd : d.Synced) (hqueue : d.inbound = []) :
    Equivalent text digest d.continueAsNew d.beginStep ↔
      (d.txn.state.awaitsSnapshot = true → d.snapshotReady = none) := by
  have halike := visible_continueAsNew hd
  constructor
  · intro hequiv hawaits
    by_contra hready
    obtain ⟨snapshot, hsome⟩ := Option.ne_none_iff_exists'.1 hready
    exact not_equivalent hqueue hsome hawaits hequiv
  · intro hready
    cases hawaits : d.txn.state.awaitsSnapshot with
    | true =>
      -- there is none to lose
      have hnone : d.beginStep.snapshotReady = none :=
        (beginStep_snapshotReady d).trans (hready hawaits)
      rw [visible_of_none hnone, visible_of_none (continueAsNew_snapshotReady d)] at halike
      rw [halike]
      exact fun acts => rfl
    | false =>
      refine Past.equivalent ⟨(continueAsNew_carries d).fits, ?_⟩ halike
      rw [continueAsNew_txn]
      exact hawaits

/-- **Continuing as new.** Wherever a step of a run rolls, the continued run is equivalent to the
one that had not continued exactly if no snapshot is pending that the state waits for. -/
theorem continued_equivalent_iff {ynabId : YnabTransactionId} {inbound : List InboundSignal}
    {beats : List DriverBeat} (act : Act) (n : ℕ)
    (hrun : Run text digest { start { ynabId } with inbound } beats d)
    (hkept : d.step text digest (act.withHistory 0) = some kept)
    (hrolled : d.step text digest (act.withHistory n) = some kept.continueAsNew) :
    Equivalent text digest kept.continueAsNew kept ↔
      (kept.txn.state.awaitsSnapshot = true → kept.snapshotReady = none) := by
  have hcalling : Calling d := by
    refine hrun.invariant (I := Calling) ?_ (start_calling ynabId inbound)
    rintro d beat d' hd ⟨hstep⟩
    exact (step_turn hstep).calling hd
  have hsynced : kept.Synced := ((step_turn hkept).calling hcalling).synced
  have hrolls : Rolls kept kept.continueAsNew := by
    have hrel : Option.Rel Rolls (d.step text digest (act.withHistory 0))
        (d.step text digest (act.withHistory n)) := step_rolls n d act
    rw [hkept, hrolled] at hrel
    cases hrel with
    | some h => exact h
  rcases hrolls.of_continueAsNew with hsame | ⟨d', hqueue, rfl⟩
  · -- the next step of the driver is already what it continues as
    rw [← hsame]
    constructor
    · intro _ _
      rw [hsame]
      exact continueAsNew_snapshotReady kept
    · intro _ acts
      rfl
  · have hsynced' : d'.Synced := by
      have hsame := (beginStep_begun d').toSame
      unfold Synced at hsynced ⊢
      rw [hsame.threadId_eq, hsame.txn_eq] at hsynced
      exact hsynced
    rw [beginStep_continueAsNew, beginStep_txn, beginStep_snapshotReady]
    exact equivalent_beginStep_iff hsynced' hqueue

end steps

/-! ## A held charge -/

/-- An Amazon charge as the fetch reads it. -/
def heldCharge : YnabSnapshot :=
  { ynabId := "t1", account := "checking", payee := "Amazon", amount := ⟨-2500⟩, txnDate := 739000 }

/-- The same charge as its backfill is notified. -/
def backfilledCharge : YnabSnapshot :=
  { heldCharge with memo := some "usb cable" }

/-- The fetch returns into a hold. -/
def heldFetch : Act :=
  .returned { now := 1 } (.snapshot (some heldCharge))

/-- Without a backfill pending, nothing is lost at the same roll. -/
theorem held_roll_equivalent : ∃ kept,
    (start { ynabId := "t1" }).step PyText.ascii id (heldFetch.withHistory 0) = some kept ∧
    (start { ynabId := "t1" }).step PyText.ascii id (heldFetch.withHistory 4001) =
      some kept.continueAsNew ∧
    kept.txn.state = .holdAmazon ∧ Equivalent PyText.ascii id kept.continueAsNew kept := by
  refine ⟨_, rfl, rfl, rfl, ?_⟩
  have hstart : Run PyText.ascii id { start { ynabId := "t1" } with inbound := [] } []
      (start { ynabId := "t1" }) := .nil _
  exact (continued_equivalent_iff heldFetch 4001 hstart rfl rfl).2 fun _ => rfl

/-- A backfill notified while the charge is fetched is lost if the run rolls as it comes to the
hold: kept, it resolves the hold at once, rolled the charge waits for its deadline. -/
theorem roll_drops_snapshot : ∃ beats d kept,
    Run PyText.ascii id { start { ynabId := "t1" } with inbound := [] } beats d ∧
    d.step PyText.ascii id (heldFetch.withHistory 0) = some kept ∧
    d.step PyText.ascii id (heldFetch.withHistory 4001) = some kept.continueAsNew ∧
    kept.txn.state = .holdAmazon ∧ kept.snapshotReady = some backfilledCharge ∧
    kept.continueAsNew.snapshotReady = none ∧
    ¬ Equivalent PyText.ascii id kept.continueAsNew kept := by
  have hrun : Lib.exec (Driver.step PyText.ascii id) { start { ynabId := "t1" } with inbound := [] }
      [.notifySnapshot backfilledCharge] = some (_, _) := rfl
  refine ⟨_, _, _, Lib.exec_run hrun, rfl, rfl, rfl, rfl, rfl, fun hequiv => ?_⟩
  have htrace := hequiv [.wake { now := 2 }]
  cases htrace

end Driver

end YnabAgent
