import YnabAgent.Workflow.Decisions

/-!
# What a transaction carries

Between its states a transaction carries the snapshot it was read as, and from the question to the
owner on the proposal (`domain/transaction.py`). A snapshot comes from the fetch or from a
notification (`Turn.snapshot?`), a proposal from the gate's ruling to ask (`Turn.proposal?`), and
converge and the reading of a reply are called with those the transaction carries (`Turn.consults`).
-/

namespace YnabAgent

namespace Transaction

/-- The current best guess, in the states that carry one. -/
def proposal? : Transaction → Option Proposal
  | .enriching s => s.proposal
  | .awaitingHuman s => s.proposal
  | .lapsed s => s.proposal
  | _ => none

def snapshot? (txn : Transaction) : Option YnabSnapshot :=
  txn.core?.map TxnCore.snapshot

@[simp] theorem withThread_proposal? (tid : ThreadId) (txn : Transaction) :
    (txn.withThread tid).proposal? = txn.proposal? := by
  cases txn <;> rfl

@[simp] theorem withThread_snapshot? (tid : ThreadId) (txn : Transaction) :
    (txn.withThread tid).snapshot? = txn.snapshot? := by
  cases txn <;> rfl

end Transaction

/-! ## Moves -/

section moves
variable {now : Datetime} {policy : LifecyclePolicy} {txn next : Transaction}
  {event : LifecycleEvent} {effects : List Effect}

/-- A proposal is carried over, or the gate has ruled to ask it. -/
theorem Move.proposal? (h : Move now policy txn event next effects) {proposal : Proposal}
    (hnext : next.proposal? = some proposal) :
    txn.proposal? = some proposal ∨ event = .enriched (.askHuman proposal) := by
  cases h with
  | stay => exact .inl hnext
  | enrichingInbound s signal => exact .inl hnext
  | askHuman s asked => cases hnext; exact .inr rfl
  | clarify s question => exact .inl hnext
  | lapse s hflag => exact .inl hnext
  | awaitingInbound s signal => exact .inl hnext
  | archiveNotice s => exact .inl hnext
  | _ => cases hnext

/-- A snapshot is carried over, or the event brings it. -/
theorem Move.snapshot? (h : Move now policy txn event next effects) {snapshot : YnabSnapshot}
    (hnext : next.snapshot? = some snapshot) :
    txn.snapshot? = some snapshot ∨ (∃ hold, event = .snapshotMaterialized snapshot hold) ∨
      event = .holdResolved snapshot := by
  have hsame : ∀ {core core' : TxnCore}, core' = core → some core'.snapshot = some snapshot →
      some core.snapshot = some snapshot := by
    rintro core _ rfl hsome
    exact hsome
  cases h with
  | hold s brought => cases hnext; exact .inr (.inl ⟨true, rfl⟩)
  | materialize s brought => cases hnext; exact .inr (.inl ⟨false, rfl⟩)
  | buffer s signal => cases hnext
  | holdResolved s brought => cases hnext; exact .inr (.inr rfl)
  | autoApply s decision a hcore hdecision => exact .inl (hsame hcore hnext)
  | verified hw o hcore hdecision => cases hw <;> exact .inl (hsame hcore hnext)
  | unverified hw => cases hw <;> exact .inl hnext
  | answer s decision a hcore hdecision => exact .inl (hsame hcore hnext)
  | archive s a hcore hfinal => exact .inl (hsame hcore hnext)
  | override s decision o hcore hdecision => exact .inl (hsame hcore hnext)
  | overrideArchive s decision a hcore hfinal => exact .inl (hsame hcore hnext)
  | archiveLapsed s a hcore hfinal => exact .inl (hsame hcore hnext)
  | reapply s decision o hcore hdecision => exact .inl (hsame hcore hnext)
  | restored s prior hprior o hcore hdecision => exact .inl (hsame hcore hnext)
  | _ => exact .inl hnext

end moves

/-- Converge is called with the snapshot carried, the reading of an inbound with the proposal. -/
def Suspended.Consults (txn : Transaction) : Suspended → Prop
  | .calling (.converge snapshot _ _) _ _ => txn.snapshot? = some snapshot
  | .calling (.interpretInbound _ _ proposal) _ _ => txn.proposal? = proposal
  | _ => True

namespace Driver

variable {d d' d₁ : Driver} {m : Moment} {effects rest : List Effect} {resume : Resume}

theorem proposal_eq (d : Driver) : d.proposal = d.txn.proposal? := by
  unfold proposal
  cases d.txn <;> rfl

/-! ## Between two awaits -/

theorem beginStep_consults (d : Driver) : d.beginStep.pc.Consults d.txn := by
  unfold beginStep
  split
  · trivial
  · trivial
  · trivial
  · trivial
  · trivial
  · trivial
  · rename_i s htxn
    show d.txn.snapshot? = some s.core.snapshot
    rw [htxn]
    rfl
  · trivial
  · trivial
  · trivial

theorem finish_consults (m : Moment) (d : Driver) (resume : Resume) :
    (d.finish m resume).pc.Consults d.txn := by
  have hend : (d.endStep m).pc.Consults d.txn := by
    unfold endStep
    split
    · exact beginStep_consults (syncThreadId
        { txn := d.txn, ynabId := d.ynabId, threadId := d.threadId, deadlines := d.deadlines,
          inbound := d.inbound, actionSeq := d.actionSeq })
    · exact beginStep_consults d
  cases resume with
  | nextStep => exact hend
  | awaitSnapshot => trivial
  | unlessLeft before timer w =>
    simp only [finish]
    split
    · trivial
    · exact hend

/-- An effect awaits neither converge nor the reading of an inbound. -/
theorem perform_consults {e : Effect} {c : Call} (h : d.perform e = .awaits c d')
    (txn : Transaction) (rest : List Effect) (resume : Resume) :
    (Suspended.calling c rest resume).Consults txn := by
  cases e with
  | sendThreadMessage purpose detail decision =>
    unfold perform at h
    cases hthread : d.threadId with
    | none => rw [hthread] at h; cases h; trivial
    | some threadId => rw [hthread] at h; cases h; trivial
  | closeThread =>
    unfold perform at h
    cases hthread : d.threadId with
    | none => rw [hthread] at h; cases h
    | some threadId => rw [hthread] at h; cases h; trivial
  | commitToYnab decision => cases h; trivial
  | openThread => cases h; trivial
  | feedRuleLearning feed => cases h; trivial
  | recordAutoAction ynabId => cases h; trivial
  | _ => cases h

theorem execute_consults : (d.execute m resume effects).pc.Consults d.txn := by
  have hexec := execute_cases m resume effects d
  generalize d.execute m resume effects = d' at hexec
  cases hexec with
  | finished hsame => rw [← hsame.txn_eq]; exact finish_consults m _ resume
  | awaits heq hsame hperform => exact perform_consults hperform d.txn _ _

@[simp] theorem beginStep_snapshotReady (d : Driver) :
    d.beginStep.snapshotReady = d.snapshotReady := by
  unfold beginStep
  split <;> rfl

/-- A notified snapshot is kept, or lost where the run continues as new. -/
theorem finish_snapshotReady {snapshot : YnabSnapshot}
    (h : (d.finish m resume).snapshotReady = some snapshot) : d.snapshotReady = some snapshot := by
  have hend : (d.endStep m).snapshotReady = some snapshot → d.snapshotReady = some snapshot := by
    unfold endStep
    split
    · intro hnew
      rw [continueAsNew, start, beginStep_snapshotReady] at hnew
      cases hnew
    · intro hkept
      rwa [beginStep_snapshotReady] at hkept
  cases resume with
  | nextStep => exact hend h
  | awaitSnapshot => exact h
  | unlessLeft before timer w =>
    simp only [finish] at h
    split at h
    · exact h
    · exact hend h

theorem perform_snapshotReady (d : Driver) (e : Effect) :
    (d.perform e).driver.snapshotReady = d.snapshotReady := by
  cases e with
  | sendThreadMessage purpose detail decision =>
    cases hthread : d.threadId <;> simp [perform, hthread, Performed.driver]
  | closeThread => cases hthread : d.threadId <;> simp [perform, hthread, Performed.driver]
  | _ => rfl

theorem execute_snapshotReady {snapshot : YnabSnapshot}
    (h : (d.execute m resume effects).snapshotReady = some snapshot) :
    d.snapshotReady = some snapshot := by
  induction effects generalizing d with
  | nil => exact finish_snapshotReady h
  | cons e rest ih =>
    have hkept := perform_snapshotReady d e
    unfold execute at h
    cases hperform : d.perform e with
    | settled d₁ =>
      rw [hperform] at h hkept
      exact hkept.symm.trans (ih h)
    | awaits c d₁ =>
      rw [hperform] at h hkept
      exact hkept.symm.trans h

/-! ## One step -/

section turns
variable {text : PyText} {δ : Type} [DecidableEq δ] {digest : TargetState → δ} {act : Act}
  {event : LifecycleEvent}

/-- A snapshot an event brings was notified, or is what the fetch returned. -/
theorem Feeds.of_snapshot {snapshot : YnabSnapshot}
    (h : Feeds text digest d act m event rest resume d₁)
    (hevent : (∃ hold, event = .snapshotMaterialized snapshot hold) ∨
      event = .holdResolved snapshot) :
    d.snapshotReady = some snapshot ∨ act = .returned m (.snapshot (some snapshot)) := by
  cases h with
  | fetched m read hpc =>
    rcases hevent with ⟨hold, heq⟩ | heq
    · cases heq; exact .inr rfl
    · cases heq
  | notified m read hpc hready =>
    rcases hevent with ⟨hold, heq⟩ | heq
    · cases heq; exact .inl hready
    · cases heq
  | backfilled m read hpc hready =>
    rcases hevent with ⟨hold, heq⟩ | heq
    · cases heq
    · cases heq; exact .inl hready
  | interpreted m outcome hpc =>
    cases outcome <;> rcases hevent with ⟨hold, heq⟩ | heq <;> cases heq
  | reread m target? s hpc htxn =>
    rcases hevent with ⟨hold, heq⟩ | heq
    · exact absurd heq.symm (archiveOrOverride_ne (by simp) (by simp) _ _ _)
    · exact absurd heq.symm (archiveOrOverride_ne (by simp) (by simp) _ _ _)
  | _ => rcases hevent with ⟨hold, heq⟩ | heq <;> cases heq

/-- An event takes a notified snapshot, or leaves it. -/
theorem Feeds.snapshotReady {snapshot : YnabSnapshot}
    (h : Feeds text digest d act m event rest resume d₁)
    (hready : d₁.snapshotReady = some snapshot) : d.snapshotReady = some snapshot := by
  cases h with
  | notified m read hpc hnotified => cases hready
  | backfilled m read hpc hnotified => cases hready
  | _ => exact hready

theorem Turn.proposal? (h : Turn text digest d act d') {proposal : Proposal}
    (hproposal : d'.txn.proposal? = some proposal) :
    d.txn.proposal? = some proposal ∨ ∃ m, act = .returned m (.enriched (.askHuman proposal)) := by
  cases h with
  | fed hfeeds hadv =>
    rw [execute_txn] at hproposal
    rw [← hfeeds.same.txn_eq]
    rcases (advance_move hadv).proposal? hproposal with hkept | rfl
    · exact .inl hkept
    · exact .inr ⟨_, hfeeds.of_enriched⟩
  | opened m threadId hpc =>
    rw [execute_txn] at hproposal
    exact .inl ((Transaction.withThread_proposal? threadId d.txn).symm.trans hproposal)
  | wentOn m hpc hc => rw [execute_txn] at hproposal; exact .inl hproposal
  | unrecorded m hpc => rw [execute_txn] at hproposal; exact .inl hproposal
  | _ => exact .inl hproposal

theorem Turn.snapshot? (h : Turn text digest d act d') {snapshot : YnabSnapshot}
    (hsnapshot : d'.txn.snapshot? = some snapshot) :
    d.txn.snapshot? = some snapshot ∨ d.snapshotReady = some snapshot ∨
      ∃ m, act = .returned m (.snapshot (some snapshot)) := by
  cases h with
  | fed hfeeds hadv =>
    rw [execute_txn] at hsnapshot
    rw [← hfeeds.same.txn_eq]
    rcases (advance_move hadv).snapshot? hsnapshot with hkept | hbrought
    · exact .inl hkept
    · right
      exact (hfeeds.of_snapshot hbrought).imp_right fun hact => ⟨_, hact⟩
  | opened m threadId hpc =>
    rw [execute_txn] at hsnapshot
    exact .inl ((Transaction.withThread_snapshot? threadId d.txn).symm.trans hsnapshot)
  | wentOn m hpc hc => rw [execute_txn] at hsnapshot; exact .inl hsnapshot
  | unrecorded m hpc => rw [execute_txn] at hsnapshot; exact .inl hsnapshot
  | _ => exact .inl hsnapshot

theorem Turn.snapshotReady (h : Turn text digest d act d') {snapshot : YnabSnapshot}
    (hready : d'.snapshotReady = some snapshot) :
    d.snapshotReady = some snapshot ∨ act = .notifySnapshot snapshot := by
  cases h with
  | notify notified hopen => cases hready; exact .inr rfl
  | fed hfeeds hadv =>
    have hkept := execute_snapshotReady hready
    exact .inl (hfeeds.snapshotReady hkept)
  | opened m threadId hpc =>
    have hkept := execute_snapshotReady hready
    exact .inl hkept
  | wentOn m hpc hc => exact .inl (execute_snapshotReady hready)
  | unrecorded m hpc => exact .inl (execute_snapshotReady hready)
  | _ => exact .inl hready

/-- The activities are called with what the transaction carries. -/
theorem Turn.consults (h : Turn text digest d act d') (hd : d.pc.Consults d.txn) :
    d'.pc.Consults d'.txn := by
  cases h with
  | accept signal hopen => exact hd
  | notify snapshot hopen => exact hd
  | fed hfeeds hadv => rw [execute_txn]; exact execute_consults
  | opened m threadId hpc => rw [execute_txn]; exact execute_consults
  | wentOn m hpc hc => rw [execute_txn]; exact execute_consults
  | unrecorded m hpc => rw [execute_txn]; exact execute_consults
  | interpret m hpc htxn hqueue => exact (proposal_eq d).symm
  | _ => trivial

end turns

end Driver

end YnabAgent
