import YnabAgent.Ingest.Plan
import YnabAgent.Workflow.Decisions
import YnabAgent.Workflow.Guard

/-!
# Charges the owner has settled

The poll addresses a transaction while it is unapproved (`ingest/plan.py`); its run decides hours
later, on the snapshot it carries. `settled_never_redecided`: where no approval of the owner's falls
between the poll and the decision, a run auto-applies, or proposes for, only what is unapproved or
what it has written itself.
-/

namespace YnabAgent

/-- The states before the gate's ruling. -/
def TxnState.unruled : TxnState → Bool
  | .discovered | .holdAmazon | .enriching => true
  | _ => false

/-- The activity mails a proposal. -/
def Suspended.proposes : Suspended → Bool
  | .calling (.openThread _ .proposal _ _) _ _ => true
  | .calling (.sendThreadMessage _ .proposal _ _ _ _) _ _ => true
  | _ => false

theorem Move.unruled {now : Datetime} {policy : LifecyclePolicy} {txn next : Transaction}
    {event : LifecycleEvent} {effects : List Effect} (h : Move now policy txn event next effects)
    (hnext : next.state.unruled = true) : txn.state.unruled = true := by
  cases h with
  | stay => exact hnext
  | _ => first | rfl | cases hnext

/-! ## Runs that have not decided -/

namespace Driver

variable {d d' : Driver}

/-- The ruling of the gate is to come, or is on its way to YNAB or to the owner. -/
def undecided (d : Driver) : Bool :=
  d.txn.state.unruled || d.autoCommitting || d.pc.proposes

theorem undecided_iff : d.undecided = true ↔
    d.txn.state.unruled = true ∨ d.autoCommitting = true ∨ d.pc.proposes = true := by
  simp [undecided, or_assoc]

section turns
variable {text : PyText} {δ : Type} [DecidableEq δ] {digest : TargetState → δ} {act : Act}

theorem Turn.unruled (h : Turn text digest d act d') (hd' : d'.txn.state.unruled = true) :
    d.txn.state.unruled = true := by
  cases h with
  | fed hfeeds hadv =>
    rw [execute_txn] at hd'
    have hstate := (advance_move hadv).unruled hd'
    rw [hfeeds.same.txn_eq] at hstate
    exact hstate
  | opened m threadId hpc =>
    rw [execute_txn] at hd'
    exact (congrArg TxnState.unruled (d.txn.withThread_state threadId)).symm.trans hd'
  | wentOn m hpc hc => rw [execute_txn] at hd'; exact hd'
  | unrecorded m hpc => rw [execute_txn] at hd'; exact hd'
  | _ => exact hd'

theorem proposes_call (h : d.pc.proposes = true) :
    ∃ c rest resume, d.pc = .calling c rest resume ∧ c.decides = true ∧
      ∀ decision, c ≠ .commitToYnab decision := by
  unfold Suspended.proposes at h
  split at h
  · rename_i hpc; exact ⟨_, _, _, hpc, rfl, fun _ => Call.noConfusion⟩
  · rename_i hpc; exact ⟨_, _, _, hpc, rfl, fun _ => Call.noConfusion⟩
  · cases h

/-- Once decided, a run stays so. -/
theorem Turn.undecided (h : Turn text digest d act d') (hcalling : Calling d)
    (hsettles : d.pc.Settles d.txn) (hd' : d'.undecided = true) : d.undecided = true := by
  have hruling : ∀ {s : Enriching}, d.txn = .enriching s → d.undecided = true := by
    intro s htxn
    exact undecided_iff.2 (.inl (by rw [htxn]; rfl))
  rcases undecided_iff.1 hd' with hunruled | hauto | hproposes
  · exact undecided_iff.2 (.inl (h.unruled hunruled))
  · obtain ⟨⟨decision, rest, resume, hpc'⟩, -⟩ := autoCommitting_iff.1 hauto
    rcases h.autoCommitting hcalling hauto with ⟨hauto, -⟩ | ⟨m, decision', rfl⟩
    · exact undecided_iff.2 (.inr (.inl hauto))
    · have hcomes := h.comes hsettles rfl hpc' rfl
      generalize d'.txn.state = state at hcomes
      cases hcomes with
      | auto m s htxn decision => exact hruling htxn
  · obtain ⟨c, rest, resume, hpc', hdecides, hc⟩ := proposes_call hproposes
    cases hresumes : act.resumes with
    | false =>
      rw [(h.same hresumes).1] at hproposes
      exact undecided_iff.2 (.inr (.inr hproposes))
    | true =>
      have hcomes := h.comes hsettles hresumes hpc' hdecides
      generalize d'.txn.state = state at hcomes
      cases hcomes with
      | auto m s htxn decision => exact hruling htxn
      | ask m s htxn proposal c hc => exact hruling htxn
      | answer m decision hpc => exact absurd rfl (hc decision)

end turns

end Driver

/-! ## Runs that leave settled charges alone -/

/-- The commit of an auto-apply, or the mail of a proposal. -/
def LiveBeat.redecides (beat : LiveBeat) : Bool :=
  match beat.act with
  | .work .commit => beat.pre.driver.autoCommitting
  | .work (.send _) => beat.pre.driver.pc.proposes
  | _ => false

/-- The owner approves nothing before the run has decided. -/
def LiveBeat.HandsOff (beat : LiveBeat) : Prop :=
  match beat.act with
  | .edit live monthClosed =>
    beat.pre.driver.undecided = true → { beat.pre with live, monthClosed }.approved = true →
      beat.pre.approved = true
  | _ => True

/-- What is approved before the run has decided, the run has written. -/
structure Unsettled (beats : List LiveBeat) (w : LiveWorld) : Prop where
  calling : w.driver.Calling
  settles : w.driver.pc.Settles w.driver.txn
  written : w.driver.undecided = true → w.approved = true → ∃ beat ∈ beats, beat.act.writes = true

section settled
variable {text : PyText} {δ : Type} [DecidableEq δ] {digest : TargetState → δ} {w w' : LiveWorld}
  {act : LiveAct} {beats : List LiveBeat}

theorem LiveWorld.Turn.settles (h : LiveWorld.Turn text digest w act w')
    (hw : w.driver.pc.Settles w.driver.txn) : w'.driver.pc.Settles w'.driver.txn := by
  cases h with
  | drove hact hturn => exact hturn.settles hw
  | returned m hdone hturn => exact hturn.settles hw
  | _ => exact hw

/-- A step on which nothing is written leaves what is approved to what was before. -/
theorem LiveWorld.Turn.approved (h : LiveWorld.Turn text digest w act w') (hw : Unsettled beats w)
    (hoff : LiveBeat.HandsOff ⟨w, act⟩) (hundecided : w'.driver.undecided = true)
    (happroved : w'.approved = true) :
    act.writes = true ∨ w.driver.undecided = true ∧ w.approved = true := by
  cases h with
  | edited live monthClosed => exact .inr ⟨hundecided, hoff hundecided happroved⟩
  | drove hact hturn =>
    exact .inr ⟨hturn.undecided hw.calling hw.settles hundecided, happroved⟩
  | returned m hdone hturn =>
    exact .inr ⟨hturn.undecided hw.calling hw.settles hundecided, happroved⟩
  | worked hworked => exact .inr ⟨hundecided, happroved⟩
  | wrote hpc hplanned hlive => exact .inl rfl
  | committed hpc hlive => exact .inl rfl

theorem Unsettled.turn (hw : Unsettled beats w) (h : LiveWorld.Turn text digest w act w')
    (hoff : LiveBeat.HandsOff ⟨w, act⟩) : Unsettled (beats ++ [⟨w, act⟩]) w' := by
  refine ⟨h.calling hw.calling, h.settles hw.settles, fun hundecided happroved => ?_⟩
  rcases h.approved hw hoff hundecided happroved with hwrites | ⟨hundecided, happroved⟩
  · exact Lib.exists_mem_last hwrites
  · exact Lib.exists_mem_snoc (hw.written hundecided happroved) _

theorem LiveBeat.undecided_of_redecides {beat : LiveBeat} (h : beat.redecides = true) :
    beat.pre.driver.undecided = true := by
  unfold redecides at h
  split at h
  · exact Driver.undecided_iff.2 (.inr (.inl h))
  · exact Driver.undecided_iff.2 (.inr (.inr h))
  · cases h

/-- **Settled charges.** In a run the poll starts, in which the owner approves nothing before the
run has decided, whatever is approved as the run auto-applies or proposes, the run has written. -/
theorem settled_never_redecided {snapshots : List YnabSnapshot} {scope : IngestScope}
    {action : AddressTxn} {wire : WireTransaction} {monthClosed : Bool}
    (hpoll : action ∈ planIngest text snapshots scope false)
    (hread : toSnapshot text wire = .ok action.snapshot)
    (hrun : LiveWorld.Run text digest
      { live := some wire, monthClosed, driver := .start { ynabId := action.snapshot.ynabId } }
      beats w)
    (hoff : ∀ beat ∈ beats, beat.HandsOff) {before after : List LiveBeat} {beat : LiveBeat}
    (hbeats : beats = before ++ beat :: after) (hredecides : beat.redecides = true)
    (happroved : beat.pre.approved = true) : ∃ beat' ∈ before, beat'.act.writes = true := by
  have hunapproved : wire.approved = false := by
    rw [← (reads_of_toSnapshot hread).approved]
    exact (mem_planIngest.1 hpoll).2.2.2.1
  have hstart : Unsettled []
      { live := some wire, monthClosed,
        driver := .start { ynabId := action.snapshot.ynabId } } := by
    refine ⟨Driver.start_calling _ [], ⟨trivial, by simp [Settled]⟩, fun _ happroved => ?_⟩
    simp [LiveWorld.approved, hunapproved] at happroved
  have hreached := hrun.each (I := Unsettled) hoff hstart
    (fun hw hoff hstep => by
      cases hstep with
      | step hs => exact hw.turn (LiveWorld.step_turn hs) hoff) hbeats
  obtain ⟨w, w', hw, hstep⟩ := hreached
  cases hstep
  exact hw.written (LiveBeat.undecided_of_redecides hredecides) happroved

end settled

/-! ## A charge the owner approves while it is triaged -/

/-- The poll of the charge. -/
def marketAddressed : AddressTxn := { snapshot := marketSnapshot }

/-- The owner files the charge under gifts and approves it. -/
def giftsApproved : LiveAct :=
  .edit (some { marketWire (some "gifts") none with approved := true }) false

theorem market_addressed :
    marketAddressed ∈ planIngest PyText.ascii [marketSnapshot] { installDate := 0 } false ∧
      toSnapshot PyText.ascii (marketWire none none) = .ok marketAddressed.snapshot :=
  ⟨mem_planIngest.2 ⟨rfl, by simp [marketAddressed], rfl, rfl, rfl⟩, rfl⟩

/-- The commit of the auto-apply is attempted twice; what is approved by then the run
has written. -/
theorem market_retried :
    ∃ before pre w, LiveWorld.Run PyText.ascii id marketWorld (before ++ [⟨pre, .work .commit⟩]) w ∧
      pre.driver.autoCommitting = true ∧ pre.approved = true ∧
      ∃ beat ∈ before, beat.act.writes = true := by
  have hexec : ∃ before pre w, Lib.exec (LiveWorld.step PyText.ascii id) marketWorld
      (marketRuled ++ [.work .commit, .work .commit]) =
        some (before ++ [⟨pre, .work .commit⟩], w) ∧
      (before.all fun beat => !beat.act.edits) = true ∧
      pre.driver.autoCommitting = true ∧ pre.approved = true :=
    ⟨[_, _, _, _, _], _, _, rfl, rfl, rfl, rfl⟩
  obtain ⟨before, pre, w, hexec, hedits, hauto, happroved⟩ := hexec
  have hrun := Lib.exec_run hexec
  refine ⟨before, pre, w, hrun, hauto, happroved, ?_⟩
  refine settled_never_redecided market_addressed.1 market_addressed.2 hrun ?_ rfl hauto happroved
  intro beat hbeat
  unfold LiveBeat.HandsOff
  split
  · rename_i hact
    rcases List.mem_append.1 hbeat with hbeat | hbeat
    · have hedit := List.all_eq_true.1 hedits beat hbeat
      rw [hact] at hedit
      cases hedit
    · rw [List.mem_singleton.1 hbeat] at hact
      cases hact
  · trivial

/-- The owner approves the charge while it is triaged: its rule writes it to groceries, and without
a rule a proposal is mailed for it. -/
theorem settled_redecided :
    (marketAddressed ∈ planIngest PyText.ascii [marketSnapshot] { installDate := 0 } false ∧
      toSnapshot PyText.ascii (marketWire none none) = .ok marketAddressed.snapshot) ∧
    (∃ before pre w, LiveWorld.Run PyText.ascii id marketWorld
      (before ++ [⟨pre, .work .commit⟩]) w ∧ pre.driver.autoCommitting = true ∧
      pre.approved = true ∧ ∀ beat ∈ before, beat.act.writes = false) ∧
    ∃ before pre w, LiveWorld.Run PyText.ascii id marketWorld
      (before ++ [⟨pre, .work (.send "th1")⟩]) w ∧ pre.driver.pc.proposes = true ∧
      pre.approved = true ∧ ∀ beat ∈ before, beat.act.writes = false := by
  refine ⟨market_addressed, ?_, ?_⟩
  · have hexec : ∃ before pre w, Lib.exec (LiveWorld.step PyText.ascii id) marketWorld
        (marketFetched ++ giftsApproved :: (marketEnriched [marketRule] ++ [.work .commit])) =
          some (before ++ [⟨pre, .work .commit⟩], w) ∧
        pre.driver.autoCommitting = true ∧ pre.approved = true ∧
        (before.all fun beat => !beat.act.writes) = true :=
      ⟨[_, _, _, _, _], _, _, rfl, rfl, rfl, rfl⟩
    obtain ⟨before, pre, w, hexec, hauto, happroved, hwrites⟩ := hexec
    refine ⟨before, pre, w, Lib.exec_run hexec, hauto, happroved, fun beat hbeat => ?_⟩
    simpa using List.all_eq_true.1 hwrites beat hbeat
  · have hexec : ∃ before pre w, Lib.exec (LiveWorld.step PyText.ascii id) marketWorld
        (marketFetched ++ giftsApproved :: (marketEnriched [] ++ [.work (.send "th1")])) =
          some (before ++ [⟨pre, .work (.send "th1")⟩], w) ∧
        pre.driver.pc.proposes = true ∧ pre.approved = true ∧
        (before.all fun beat => !beat.act.writes) = true :=
      ⟨[_, _, _, _, _], _, _, rfl, rfl, rfl, rfl⟩
    obtain ⟨before, pre, w, hexec, hproposes, happroved, hwrites⟩ := hexec
    refine ⟨before, pre, w, Lib.exec_run hexec, hproposes, happroved, fun beat hbeat => ?_⟩
    simpa using List.all_eq_true.1 hwrites beat hbeat

end YnabAgent
