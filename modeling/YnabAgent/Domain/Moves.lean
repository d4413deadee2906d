import YnabAgent.Domain.StateMachine

/-!
# What one step of the machine can do

`Move now policy txn event next effects` lists the steps of `advance`, one constructor for each way
a state answers an event; `Move.stay` is an ignored or rejected event. `advance_move` is the only
place where the handlers are unfolded: every invariant of the machine is a case analysis of `Move`.
-/

namespace YnabAgent

/-- A transaction the agent has written and not yet verified, with what it owes on a match: the
message it sends and the feed, if any. -/
inductive Written : Transaction → TxnCore → Decision → MessagePurpose → Option RuleLearningKind →
    Prop
  | auto (s : AutoApplied) : Written (.autoApplied s) s.core s.decision .fyi none
  | answered (s : Applied) : Written (.applied s) s.core s.decision .confirm (some .confirm)

/-- The feed a verified write owes. -/
def writeFeed (core : TxnCore) (decision : Decision) (learning : Option RuleLearningKind) :
    List Effect :=
  match learning with
  | some kind =>
    [.feedRuleLearning { event := kind, payee := core.snapshot.payee, decision := some decision }]
  | none => []

inductive Move (now : Datetime) (policy : LifecyclePolicy) :
    Transaction → LifecycleEvent → Transaction → List Effect → Prop
  | stay (txn : Transaction) (event : LifecycleEvent) : Move now policy txn event txn []
  | hold (s : Discovered) (snapshot : YnabSnapshot) :
      Move now policy (.discovered s) (.snapshotMaterialized snapshot true)
        (.holdAmazon { core := { snapshot, threadId := s.threadId },
                       amazonDeadline := now + policy.amazonHold })
        (.setTimer .amazonHold (now + policy.amazonHold) :: replayPending s.pending)
  | materialize (s : Discovered) (snapshot : YnabSnapshot) :
      Move now policy (.discovered s) (.snapshotMaterialized snapshot false)
        (.enriching { core := { snapshot, threadId := s.threadId } }) (replayPending s.pending)
  | buffer (s : Discovered) (signal : InboundSignal) :
      Move now policy (.discovered s) (.inboundReceived signal)
        (.discovered { ynabId := s.ynabId, threadId := adoptThread s.threadId signal,
                       pending := s.pending ++ [signal] }) []
  | holdResolved (s : HoldAmazon) (snapshot : YnabSnapshot) :
      Move now policy (.holdAmazon s) (.holdResolved snapshot)
        (.enriching { core := { s.core with snapshot } }) [.cancelTimer .amazonHold]
  | holdDeadline (s : HoldAmazon) :
      Move now policy (.holdAmazon s) .holdDeadlineReached (.enriching { core := s.core }) []
  | holdInbound (s : HoldAmazon) (signal : InboundSignal) :
      Move now policy (.holdAmazon s) (.inboundReceived signal) (.enriching { core := s.core })
        [.cancelTimer .amazonHold, .replayBuffered [signal]]
  | autoApply (s : Enriching) (decision : Decision) (a : AutoApplied) (hcore : a.core = s.core)
      (hdecision : a.decision = decision) :
      Move now policy (.enriching s) (.enriched (.autoApply decision)) (.autoApplied a)
        [.commitToYnab decision, .recordAutoAction s.core.snapshot.ynabId]
  | askHuman (s : Enriching) (proposal : Proposal) :
      Move now policy (.enriching s) (.enriched (.askHuman proposal))
        (.awaitingHuman { core := s.core, proposal := some proposal,
                          patienceDeadline := now + policy.patienceWindow })
        [proposalEffect s.core, .setTimer .patience (now + policy.patienceWindow)]
  | enrichingInbound (s : Enriching) (signal : InboundSignal) :
      Move now policy (.enriching s) (.inboundReceived signal) (.enriching s)
        [.replayBuffered [signal]]
  | verified {txn : Transaction} {core : TxnCore} {decision : Decision} {message : MessagePurpose}
      {learning : Option RuleLearningKind} (hw : Written txn core decision message learning)
      (o : Open) (hcore : o.core = core) (hdecision : o.decision = decision) :
      Move now policy txn (.writeVerified .match) (.opened o)
        (writeFeed core decision learning ++
          [.sendThreadMessage message none (some decision),
            .setTimer .archive (now + policy.archiveWindow)])
  | unverified {txn : Transaction} {core : TxnCore} {decision : Decision}
      {message : MessagePurpose} {learning : Option RuleLearningKind}
      (hw : Written txn core decision message learning) (outcome : VerifyOutcome)
      (houtcome : outcome ≠ .match) (flag : AwaitingFlag) (note : MessagePurpose)
      (hnote : note ≠ .proposal) :
      Move now policy txn (.writeVerified outcome)
        (.awaitingHuman { core, patienceDeadline := now + policy.patienceWindow, flag })
        [.sendThreadMessage note none (some decision),
          .setTimer .patience (now + policy.patienceWindow)]
  | answer (s : AwaitingHuman) (decision : Decision) (a : Applied) (hcore : a.core = s.core)
      (hdecision : a.decision = decision) :
      Move now policy (.awaitingHuman s) (.answerReceived decision) (.applied a)
        [.commitToYnab decision, .cancelTimer .patience]
  | clarify (s : AwaitingHuman) (question : String) :
      Move now policy (.awaitingHuman s) (.clarifyRequested question)
        (.awaitingHuman { s with patienceDeadline := now + policy.patienceWindow })
        [.sendThreadMessage .clarify (some question) none,
          .setTimer .patience (now + policy.patienceWindow)]
  | lapse (s : AwaitingHuman) (hflag : s.flag = .none) :
      Move now policy (.awaitingHuman s) .patienceExpired
        (.lapsed { core := s.core, proposal := s.proposal })
        [.sendThreadMessage .handoff none none, .setTimer .archive (now + policy.archiveWindow)]
  | awaitingInbound (s : AwaitingHuman) (signal : InboundSignal) :
      Move now policy (.awaitingHuman s) (.inboundReceived signal) (.awaitingHuman s)
        [.replayBuffered [signal]]
  | reopen (s : Open) (signal : InboundSignal) :
      Move now policy (.opened s) (.inboundReceived signal)
        (.revising { core := s.core, instruction := signal, origin := .applied,
                     prior := some s.decision }) [.cancelTimer .archive]
  | archive (s : Open) (a : Archived) (hcore : a.core = s.core)
      (hfinal : a.final = some s.decision) :
      Move now policy (.opened s) .archiveWindowReached (.archived a) [.closeThread]
  | override (s : Open) (decision : Decision) (o : Open) (hcore : o.core = s.core)
      (hdecision : o.decision = decision) :
      Move now policy (.opened s) (.overrideDetected decision) (.opened o)
        [.feedRuleLearning { event := .correct, payee := s.core.snapshot.payee,
                             decision := some decision, prior := some s.decision },
          .sendThreadMessage .overrideNotice none (some decision)]
  | overrideArchive (s : Open) (decision : Decision) (a : Archived) (hcore : a.core = s.core)
      (hfinal : a.final = some decision) :
      Move now policy (.opened s) (.overrideDetected decision) (.archived a)
        [.feedRuleLearning { event := .correct, payee := s.core.snapshot.payee,
                             decision := some decision, prior := some s.decision },
          .sendThreadMessage .overrideNotice none (some decision), .closeThread]
  | reopenLapsed (s : Lapsed) (signal : InboundSignal) :
      Move now policy (.lapsed s) (.inboundReceived signal)
        (.revising { core := s.core, instruction := signal, origin := .lapsed })
        [.cancelTimer .archive]
  | archiveNotice (s : Lapsed) :
      Move now policy (.lapsed s) .archiveWindowReached (.lapsed s)
        [.sendThreadMessage .archiveNotice none none]
  | archiveLapsed (s : Lapsed) (a : Archived) (hcore : a.core = s.core) (hfinal : a.final = none) :
      Move now policy (.lapsed s) .archiveWindowReached (.archived a) [.closeThread]
  | reapply (s : Revising) (decision : Decision) (o : Open) (hcore : o.core = s.core)
      (hdecision : o.decision = decision) :
      Move now policy (.revising s) (.converged (.reapplied decision)) (.opened o)
        [.feedRuleLearning (reapplyFeed s decision),
          .sendThreadMessage .reviseSummary none (some decision),
          .setTimer .archive (now + policy.archiveWindow)]
  | restored (s : Revising) (prior : Decision) (hprior : s.prior = some prior) (o : Open)
      (hcore : o.core = s.core) (hdecision : o.decision = prior) :
      Move now policy (.revising s) (.converged .noChange) (.opened o)
        [.setTimer .archive (now + policy.archiveWindow)]
  | rearmed (s : Revising) (h : s.origin = .lapsed ∨ s.prior = none) :
      Move now policy (.revising s) (.converged .noChange)
        (.awaitingHuman { core := s.core, patienceDeadline := now + policy.patienceWindow })
        [.setTimer .patience (now + policy.patienceWindow)]
  | unconverged (s : Revising) (outcome : ConvergeOutcome)
      (houtcome : outcome = .couldNotConfirm ∨ (∃ ynab asked, outcome = .diverged ynab asked) ∨
        ∃ reason, outcome = .needsHuman reason)
      (flag : AwaitingFlag) (note : MessagePurpose) (detail : Option String)
      (hnote : note ≠ .proposal) :
      Move now policy (.revising s) (.converged outcome)
        (.awaitingHuman { core := s.core, patienceDeadline := now + policy.patienceWindow, flag })
        [.sendThreadMessage note detail none, .setTimer .patience (now + policy.patienceWindow)]
  | retarget (s : Revising) (signal : InboundSignal) :
      Move now policy (.revising s) (.inboundReceived signal)
        (.revising { s with instruction := signal }) [.replayBuffered [signal]]

section moves
variable {now : Datetime} {policy : LifecyclePolicy} {event : LifecycleEvent} {tr : Transition}

theorem fromDiscovered_move (s : Discovered) :
    Move now policy (.discovered s) event (fromDiscovered now policy s event).next
      (fromDiscovered now policy s event).effects := by
  cases event with
  | snapshotMaterialized snapshot hold =>
    cases hold with
    | true => exact .hold s snapshot
    | false => exact .materialize s snapshot
  | inboundReceived signal => exact .buffer s signal
  | _ => exact .stay _ _

theorem fromHoldAmazon_move (s : HoldAmazon) :
    Move now policy (.holdAmazon s) event (fromHoldAmazon s event).next
      (fromHoldAmazon s event).effects := by
  cases event with
  | holdResolved snapshot => exact .holdResolved s snapshot
  | holdDeadlineReached => exact .holdDeadline s
  | inboundReceived signal => exact .holdInbound s signal
  | _ => exact .stay _ _

theorem fromEnriching_move {s : Enriching} (h : fromEnriching now policy s event = .ok tr) :
    Move now policy (.enriching s) event tr.next tr.effects := by
  cases event with
  | enriched outcome =>
    cases outcome with
    | autoApply decision =>
      obtain ⟨a, ha, h⟩ := Lib.bind_eq_ok h
      cases h
      obtain ⟨hcore, hdecision⟩ := AutoApplied.of_make ha
      exact .autoApply s decision a hcore hdecision
    | askHuman proposal => cases h; exact .askHuman s proposal
  | inboundReceived signal => cases h; exact .enrichingInbound s signal
  | _ => cases h; exact .stay _ _

theorem resolveWriteVerify_move {txn : Transaction} {core : TxnCore} {decision : Decision}
    {message : MessagePurpose} {learning : Option RuleLearningKind} {outcome : VerifyOutcome}
    (hw : Written txn core decision message learning)
    (h : resolveWriteVerify now policy core decision outcome message learning = .ok tr) :
    Move now policy txn (.writeVerified outcome) tr.next tr.effects := by
  cases outcome with
  | «match» =>
    obtain ⟨o, ho, h⟩ := Lib.bind_eq_ok h
    cases h
    obtain ⟨hcore, hdecision⟩ := Open.of_make ho
    exact .verified hw o hcore hdecision
  | couldNotConfirm => cases h; exact .unverified hw _ (by decide) _ _ (by decide)
  | diverged => cases h; exact .unverified hw _ (by decide) _ _ (by decide)

theorem fromAutoApplied_move {s : AutoApplied} (h : fromAutoApplied now policy s event = .ok tr) :
    Move now policy (.autoApplied s) event tr.next tr.effects := by
  cases event with
  | writeVerified outcome => exact resolveWriteVerify_move (.auto s) h
  | _ => cases h; exact .stay _ _

theorem fromApplied_move {s : Applied} (h : fromApplied now policy s event = .ok tr) :
    Move now policy (.applied s) event tr.next tr.effects := by
  cases event with
  | writeVerified outcome => exact resolveWriteVerify_move (.answered s) h
  | _ => cases h; exact .stay _ _

theorem fromAwaitingHuman_move {s : AwaitingHuman}
    (h : fromAwaitingHuman now policy s event = .ok tr) :
    Move now policy (.awaitingHuman s) event tr.next tr.effects := by
  cases event with
  | answerReceived decision =>
    obtain ⟨a, ha, h⟩ := Lib.bind_eq_ok h
    cases h
    obtain ⟨hcore, hdecision⟩ := Applied.of_make ha
    exact .answer s decision a hcore hdecision
  | clarifyRequested question => cases h; exact .clarify s question
  | patienceExpired =>
    simp only [fromAwaitingHuman] at h
    split at h
    · cases h; exact .stay _ _
    · rename_i hflag
      cases h
      exact .lapse s (not_not.mp hflag)
  | inboundReceived signal => cases h; exact .awaitingInbound s signal
  | _ => cases h; exact .stay _ _

theorem fromOpen_move {s : Open} (h : fromOpen s event = .ok tr) :
    Move now policy (.opened s) event tr.next tr.effects := by
  cases event with
  | inboundReceived signal => cases h; exact .reopen s signal
  | archiveWindowReached =>
    simp only [fromOpen] at h
    split at h
    · cases h; exact .stay _ _
    · obtain ⟨a, ha, h⟩ := Lib.bind_eq_ok h
      cases h
      obtain ⟨hcore, hfinal⟩ := Archived.of_make ha
      exact .archive s a hcore hfinal
  | overrideDetected decision =>
    simp only [fromOpen] at h
    split at h
    · obtain ⟨o, ho, h⟩ := Lib.bind_eq_ok h
      cases h
      obtain ⟨hcore, hdecision⟩ := Open.of_make ho
      exact .override s decision o hcore hdecision
    · obtain ⟨a, ha, h⟩ := Lib.bind_eq_ok h
      cases h
      obtain ⟨hcore, hfinal⟩ := Archived.of_make ha
      exact .overrideArchive s decision a hcore hfinal
  | _ => cases h; exact .stay _ _

theorem fromLapsed_move {s : Lapsed} (h : fromLapsed s event = .ok tr) :
    Move now policy (.lapsed s) event tr.next tr.effects := by
  cases event with
  | inboundReceived signal => cases h; exact .reopenLapsed s signal
  | archiveWindowReached =>
    simp only [fromLapsed] at h
    split at h
    · cases h; exact .stay _ _
    · split at h
      · cases h; exact .archiveNotice s
      · obtain ⟨a, ha, h⟩ := Lib.bind_eq_ok h
        cases h
        obtain ⟨hcore, hfinal⟩ := Archived.of_make ha
        exact .archiveLapsed s a hcore hfinal
  | _ => cases h; exact .stay _ _

theorem resolveNoChange_move {s : Revising} (h : resolveNoChange now policy s = .ok tr) :
    Move now policy (.revising s) (.converged .noChange) tr.next tr.effects := by
  unfold resolveNoChange at h
  split at h
  · rename_i prior horigin hprior
    obtain ⟨o, ho, h⟩ := Lib.bind_eq_ok h
    cases h
    obtain ⟨hcore, hdecision⟩ := Open.of_make ho
    exact .restored s prior hprior o hcore hdecision
  · rename_i hne
    cases h
    refine .rearmed s ?_
    cases horigin : s.origin with
    | lapsed => exact .inl rfl
    | applied =>
      cases hprior : s.prior with
      | none => exact .inr rfl
      | some prior => exact absurd hprior (hne prior horigin)

theorem fromRevising_move {s : Revising} (h : fromRevising now policy s event = .ok tr) :
    Move now policy (.revising s) event tr.next tr.effects := by
  cases event with
  | converged outcome =>
    cases outcome with
    | reapplied decision =>
      obtain ⟨o, ho, h⟩ := Lib.bind_eq_ok h
      cases h
      obtain ⟨hcore, hdecision⟩ := Open.of_make ho
      exact .reapply s decision o hcore hdecision
    | noChange => exact resolveNoChange_move h
    | couldNotConfirm => cases h; exact .unconverged s _ (.inl rfl) _ _ _ (by decide)
    | diverged ynab asked =>
      cases h
      exact .unconverged s _ (.inr (.inl ⟨_, _, rfl⟩)) _ _ _ (by decide)
    | needsHuman reason =>
      cases h
      exact .unconverged s _ (.inr (.inr ⟨_, rfl⟩)) _ _ _ (by decide)
  | inboundReceived signal => cases h; exact .retarget s signal
  | _ => cases h; exact .stay _ _

/-- Every transition `advance` returns is one of the listed moves. -/
theorem advance_move {txn : Transaction} (h : advance now policy txn event = .ok tr) :
    Move now policy txn event tr.next tr.effects := by
  cases txn with
  | discovered s => cases h; exact fromDiscovered_move s
  | holdAmazon s => cases h; exact fromHoldAmazon_move s
  | enriching s => exact fromEnriching_move h
  | autoApplied s => exact fromAutoApplied_move h
  | awaitingHuman s => exact fromAwaitingHuman_move h
  | applied s => exact fromApplied_move h
  | opened s => exact fromOpen_move h
  | lapsed s => exact fromLapsed_move h
  | revising s => exact fromRevising_move h
  | archived s => cases h; exact .stay _ _

/-- A decision is committed where the gate ruled to apply it, or where the owner answered it. -/
theorem Move.commit_cases {txn next : Transaction} {effects : List Effect} {decision : Decision}
    (hm : Move now policy txn event next effects) (hcommit : .commitToYnab decision ∈ effects) :
    (∃ a : AutoApplied, event = .enriched (.autoApply decision) ∧ next = .autoApplied a ∧
      a.decision = decision ∧
      effects = [.commitToYnab decision, .recordAutoAction a.core.snapshot.ynabId]) ∨
    ∃ a : Applied, event = .answerReceived decision ∧ next = .applied a ∧ a.decision = decision ∧
      effects = [.commitToYnab decision, .cancelTimer .patience] := by
  cases hm with
  | autoApply s ruled a hcore hdecision =>
    have heq : decision = ruled := by simpa using hcommit
    subst heq
    exact .inl ⟨a, rfl, rfl, hdecision, by rw [hcore]⟩
  | answer s answered a hcore hdecision =>
    have heq : decision = answered := by simpa using hcommit
    subst heq
    exact .inr ⟨a, rfl, rfl, hdecision, rfl⟩
  | hold s snapshot =>
    unfold replayPending at hcommit
    split at hcommit <;> simp at hcommit
  | materialize s snapshot =>
    unfold replayPending at hcommit
    split at hcommit <;> simp at hcommit
  | askHuman s proposal =>
    unfold proposalEffect at hcommit
    split at hcommit <;> simp at hcommit
  | verified hw o hcore hdecision =>
    unfold writeFeed at hcommit
    split at hcommit <;> simp at hcommit
  | _ => simp at hcommit

end moves

end YnabAgent
