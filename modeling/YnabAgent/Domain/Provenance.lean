import YnabAgent.Domain.Runs

/-!
# The rule behind a written decision

A correction demotes the rule that drove the wrong category only if the state it meets still carries
the decision that names the rule. `Holds` is that invariant of a written transaction; `DropsRule`
lists the steps that lose it: a write that does not verify, a converge run that falls back to the
human, and a re-application of the same allocation under another rule or none. On a run without
such a step, `correction_demotes`.
-/

namespace YnabAgent

/-! ## What a run emits and where it rests -/

/-- A correction whose prior decision carries the rule. -/
def Effect.demotes (rule : RuleId) : Effect → Bool
  | .feedRuleLearning feed =>
    decide (feed.event = .correct ∧ feed.prior.bind (·.ruleId) = some rule)
  | _ => false

/-- The run rests on a decision: verified in `OPEN`, or archived with it. -/
inductive Rests : Transaction → Decision → Prop
  | opened (s : Open) : Rests (.opened s) s.decision
  | archived {s : Archived} {decision : Decision} (h : s.final = some decision) :
      Rests (.archived s) decision

/-! ## The decision a written transaction stands on -/

/-- The decision of a written transaction; for a revision, the one it revises. -/
def Transaction.standing : Transaction → Option Decision
  | .autoApplied s => some s.decision
  | .applied s => some s.decision
  | .opened s => some s.decision
  | .revising s => s.prior
  | .archived s => s.final
  | _ => none

/-- The transaction stands on a decision of this rule and allocation. -/
def Holds (rule : RuleId) (allocation : ResolvedAllocation) (txn : Transaction) : Prop :=
  ∃ d, txn.standing = some d ∧ d.ruleId = some rule ∧ d.allocation = allocation

/-- A converge outcome that gives up the decision `prior` without correcting it: it falls back to
the human, or re-applies the same allocation under another rule or none. -/
def GivesUp (prior : Decision) : ConvergeOutcome → Prop
  | .reapplied d => d.allocation = prior.allocation ∧ d.ruleId ≠ prior.ruleId
  | .noChange => False
  | _ => True

/-- The event makes the state give up a decision that carries a rule. -/
def DropsRule (pre : Transaction) (event : LifecycleEvent) : Prop :=
  match pre, event with
  | .autoApplied s, .writeVerified outcome => s.decision.ruleId ≠ none ∧ outcome ≠ .match
  | .applied s, .writeVerified outcome => s.decision.ruleId ≠ none ∧ outcome ≠ .match
  | .revising s, .converged outcome => ∃ p, s.prior = some p ∧ p.ruleId ≠ none ∧ GivesUp p outcome
  | _, _ => False

def Beat.DropsRule : Beat → Prop
  | .fed pre _ event _ => YnabAgent.DropsRule pre event
  | .stamped _ => False

section steps
variable {now : Datetime} {policy : LifecyclePolicy} {txn next : Transaction}
  {event : LifecycleEvent} {effects : List Effect} {rule : RuleId}
  {allocation : ResolvedAllocation}

theorem Holds.withThread (h : Holds rule allocation txn) (tid : ThreadId) :
    Holds rule allocation (txn.withThread tid) := by
  obtain ⟨d, hd, hr, ha⟩ := h
  cases txn <;> exact ⟨d, hd, hr, ha⟩

/-- A verified write stands on the decision it wrote. -/
theorem Written.standing {core : TxnCore} {decision : Decision} {message : MessagePurpose}
    {learning : Option RuleLearningKind} (hw : Written txn core decision message learning) :
    txn.standing = some decision := by
  cases hw <;> rfl

/-- A write that does not verify drops the rule of its decision. -/
theorem Written.dropsRule {core : TxnCore} {decision : Decision} {message : MessagePurpose}
    {learning : Option RuleLearningKind} (hw : Written txn core decision message learning)
    {outcome : VerifyOutcome} (hr : decision.ruleId = some rule) (houtcome : outcome ≠ .match) :
    DropsRule txn (.writeVerified outcome) := by
  cases hw <;> exact ⟨by rw [hr]; simp, houtcome⟩

/-- One step keeps the standing decision's rule and allocation, or corrects the rule, unless it
drops it. -/
theorem Move.holds (hm : Move now policy txn event next effects) (hprior : PriorCommitted txn)
    (hkeep : ¬ DropsRule txn event) (h : Holds rule allocation txn) :
    Holds rule allocation next ∨ ∃ effect ∈ effects, effect.demotes rule = true := by
  obtain ⟨d, hd, hr, ha⟩ := h
  cases hm with
  | stay => exact .inl ⟨d, hd, hr, ha⟩
  | verified hw o hcore hdecision =>
    rw [hw.standing] at hd
    cases hd
    exact .inl ⟨o.decision, rfl, by rw [hdecision]; exact hr, by rw [hdecision]; exact ha⟩
  | unverified hw outcome houtcome flag note =>
    rw [hw.standing] at hd
    cases hd
    exact absurd (hw.dropsRule hr houtcome) hkeep
  | reopen s signal => exact .inl ⟨d, hd, hr, ha⟩
  | archive s a hcore hfinal => cases hd; exact .inl ⟨s.decision, hfinal, hr, ha⟩
  | override s decision o hcore hdecision =>
    cases hd
    exact .inr ⟨_, List.mem_cons_self, by simp [Effect.demotes, hr]⟩
  | overrideArchive s decision a hcore hfinal =>
    cases hd
    exact .inr ⟨_, List.mem_cons_self, by simp [Effect.demotes, hr]⟩
  | reapply s decision o hcore hdecision =>
    have hp : s.prior = some d := hd
    by_cases hne : d.allocation = decision.allocation
    · -- the same allocation again: the rule stays, or the step drops it
      refine .inl ⟨o.decision, rfl, ?_, by rw [hdecision, ← hne]; exact ha⟩
      rw [hdecision]
      by_contra hrule
      refine hkeep ⟨d, hp, by rw [hr]; simp, hne.symm, fun heq => hrule ?_⟩
      rw [heq, hr]
    · refine .inr ⟨_, List.mem_cons_self, ?_⟩
      simp [Effect.demotes, reapplyFeed, isCorrection, hp, hne, hr]
  | restored s prior hprior' o hcore hdecision =>
    rw [show (Transaction.revising s).standing = s.prior from rfl, hprior'] at hd
    cases hd
    exact .inl ⟨o.decision, rfl, by rw [hdecision]; exact hr, by rw [hdecision]; exact ha⟩
  | rearmed s hexit =>
    have hp : s.prior = some d := hd
    rcases hexit with horigin | hnone
    · rw [(hprior d hp).1] at horigin; cases horigin
    · rw [hp] at hnone; cases hnone
  | unconverged s outcome houtcome flag note detail =>
    have hp : s.prior = some d := hd
    refine absurd ⟨d, hp, by rw [hr]; simp, ?_⟩ hkeep
    rcases houtcome with rfl | ⟨ynab, asked, rfl⟩ | ⟨reason, rfl⟩ <;> trivial
  | retarget s signal => exact .inl ⟨d, hd, hr, ha⟩
  | _ => cases hd

/-- A committed decision is the one the transaction then stands on. -/
theorem Move.standing_of_commit (hm : Move now policy txn event next effects) {d : Decision}
    (hcommit : .commitToYnab d ∈ effects) : next.standing = some d := by
  rcases hm.commit_cases hcommit with ⟨a, -, rfl, hdecision, -⟩ | ⟨a, -, rfl, hdecision, -⟩
  · exact congrArg some hdecision
  · exact congrArg some hdecision

end steps

/-! ## Runs -/

section runs
variable {policy : LifecyclePolicy} {s t : Transaction} {rule : RuleId}
  {allocation : ResolvedAllocation}

/-- A run that drops no rule corrects the standing one or still stands on it. -/
theorem TxnRun.holds {beats : List Beat} (hrun : TxnRun policy s beats t)
    (hkeep : ∀ beat ∈ beats, ¬ beat.DropsRule) (hprior : PriorCommitted s)
    (h : Holds rule allocation s) :
    Holds rule allocation t ∨
      ∃ beat ∈ beats, ∃ effect ∈ beat.effects, effect.demotes rule = true := by
  induction hrun with
  | nil _ => exact .inl h
  | @cons s u t beat beats hstep _ ih =>
    have hrest := ih (fun b hb => hkeep b (List.mem_cons_of_mem _ hb))
    have lift : (∃ b ∈ beats, ∃ effect ∈ b.effects, effect.demotes rule = true) →
        ∃ b ∈ beat :: beats, ∃ effect ∈ b.effects, effect.demotes rule = true :=
      fun ⟨b, hb, heffect⟩ => ⟨b, List.mem_cons_of_mem _ hb, heffect⟩
    cases hstep with
    | fed hadv =>
      have hm := advance_move hadv
      rcases hm.holds hprior (hkeep _ List.mem_cons_self) h with hnext | heffect
      · exact (hrest (hm.priorCommitted hprior) hnext).imp_right lift
      · exact .inr ⟨_, List.mem_cons_self, heffect⟩
    | stamped _ tid => exact (hrest (hprior.withThread tid) (h.withThread tid)).imp_right lift

/-- **A correction demotes the rule behind the decision it overturns.** A run commits a decision of
the rule, drops no rule afterwards, and rests on a decision of another allocation, the human's or
not: in between it emitted a correction whose prior carries the rule. -/
theorem correction_demotes {ynabId : YnabTransactionId} {threadId : Option ThreadId}
    {before after : List Beat} {commit : Beat} {d d' : Decision}
    (hrun : TxnRun policy (born ynabId threadId) (before ++ commit :: after) t)
    (hkeep : ∀ beat ∈ after, ¬ beat.DropsRule)
    (hcommit : .commitToYnab d ∈ commit.effects) (hrule : d.ruleId = some rule)
    (hrests : Rests t d') (hne : d'.allocation ≠ d.allocation) :
    ∃ beat ∈ after, ∃ effect ∈ beat.effects, effect.demotes rule = true := by
  obtain ⟨u, hbefore, hrest⟩ := hrun.of_append
  obtain ⟨v, hstep, hafter⟩ := hrest.cons_inv
  have hu : PriorCommitted u := Reachable.priorCommitted ⟨_, _, _, hbefore⟩
  have hstand : v.standing = some d ∧ PriorCommitted v := by
    cases hstep with
    | fed hadv =>
      have hm := advance_move hadv
      exact ⟨hm.standing_of_commit hcommit, hm.priorCommitted hu⟩
    | stamped _ tid => cases hcommit
  rcases TxnRun.holds hafter hkeep hstand.2 ⟨d, hstand.1, hrule, rfl⟩ with ⟨e, he, -, ha⟩ | h
  · -- standing on the committed allocation, the run does not rest on another one
    exfalso
    apply hne
    cases hrests with
    | opened s => cases he; exact ha
    | archived hfinal =>
      have : some e = some d' := he.symm.trans hfinal
      cases this
      exact ha
  · exact h

/-- A café charge auto-applied under a rule and verified; the owner then replies with another
category. -/
def repliedCorrection : List (Datetime × LifecycleEvent) :=
  let snapshot : YnabSnapshot :=
    { ynabId := "t1", account := "checking", payee := "Corner Cafe", amount := ⟨-12500⟩,
      txnDate := 739000 }
  let auto : Decision :=
    { allocation := .category "dining" none, approved := true, decidedBy := .agent, decidedAt := 0,
      ruleId := some "r1" }
  let human : Decision :=
    { allocation := .category "groceries" none, approved := true, decidedBy := .human,
      decidedAt := 0 }
  [(0, .snapshotMaterialized snapshot false), (0, .enriched (.autoApply auto)),
    (0, .writeVerified .match), (0, .inboundReceived (.reply ⟨"th", "m", "owner", "groceries"⟩)),
    (0, .converged (.reapplied human))]

/-- The reply's correction demotes `r1`. -/
theorem correction_demotes_on_reply :
    ∃ before commit after t, TxnRun defaultPolicy (born "t1" none) (before ++ commit :: after) t ∧
      ∃ beat ∈ after, ∃ effect ∈ beat.effects, effect.demotes "r1" = true := by
  have hrun : ∃ b₁ b₂ b₃ b₄ b₅ s, runEvents defaultPolicy (born "t1" none) repliedCorrection
      = .ok ([b₁, b₂, b₃, b₄, b₅], .opened s) ∧ b₂.effects.head? = some (.commitToYnab
        { allocation := .category "dining" none, approved := true, decidedBy := .agent,
          decidedAt := 0, ruleId := some "r1" }) ∧
      s.decision.allocation = .category "groceries" none ∧
      ∀ beat ∈ [b₃, b₄, b₅], ¬ beat.DropsRule := by
    refine ⟨_, _, _, _, _, _, rfl, rfl, rfl, ?_⟩
    simp only [List.forall_mem_cons, List.not_mem_nil, false_imp_iff, implies_true, and_true]
    refine ⟨fun h => h.2 rfl, id, ?_⟩
    rintro ⟨p, hp, -, hsame, -⟩
    cases hp
    exact absurd hsame (by decide)
  obtain ⟨b₁, b₂, b₃, b₄, b₅, s, hrun, hcommit, hs, hkeep⟩ := hrun
  have hmem := List.mem_of_mem_head? (by rw [hcommit]; rfl)
  have hr : TxnRun defaultPolicy (born "t1" none) ([b₁] ++ b₂ :: [b₃, b₄, b₅]) (.opened s) :=
    runEvents_run hrun
  exact ⟨_, _, _, _, hr, correction_demotes hr hkeep hmem rfl (.opened s) (by rw [hs]; decide)⟩

end runs

/-! ## A dropped rule can be lost -/

section lost
variable {now : Datetime} {policy : LifecyclePolicy} {txn : Transaction} {event : LifecycleEvent}
  {tr : Transition} {rule : RuleId} {allocation : ResolvedAllocation}

/-- A human's choice of a category that is not the given allocation. -/
def otherChoice (allocation : ResolvedAllocation) : Decision :=
  match allocation with
  | .category category _ => humanChoice (category ++ "'")
  | .split _ => humanChoice "other"
where
  humanChoice (category : CategoryId) : Decision :=
    { allocation := .category category none, approved := true, decidedBy := .human, decidedAt := 0 }

theorem otherChoice_allocation_ne : (otherChoice allocation).allocation ≠ allocation := by
  cases allocation with
  | category category tag =>
    simp [otherChoice, otherChoice.humanChoice]
  | split split => simp [otherChoice, otherChoice.humanChoice]

theorem otherChoice_committed (allocation : ResolvedAllocation) (core : TxnCore) :
    Committed core (otherChoice allocation) := by
  cases allocation <;>
    exact ⟨rfl, fun h => by simp [otherChoice, otherChoice.humanChoice] at h⟩

theorem otherChoice_human : (otherChoice allocation).decidedBy = .human := by
  cases allocation <;> rfl

/-- Two steps that do not demote a rule lead to rest. -/
theorem exists_quiet_rest {txn mid : Transaction} {event₁ event₂ : LifecycleEvent}
    {effects : List Effect} {tr : Transition} {o : Open}
    (h₁ : advance 0 policy txn event₁ = .ok (advanced mid effects))
    (h₂ : advance 0 policy mid event₂ = .ok tr) (hnext : tr.next = .opened o)
    (hquiet₁ : ∀ effect ∈ effects, effect.demotes rule = false)
    (hquiet₂ : ∀ effect ∈ tr.effects, effect.demotes rule = false) :
    ∃ beats t, TxnRun policy txn beats t ∧ Rests t o.decision ∧
      ∀ beat ∈ beats, ∀ effect ∈ beat.effects, effect.demotes rule = false := by
  refine ⟨_, _, .cons (.fed h₁) (.single (.fed h₂)), ?_, ?_⟩
  · rw [hnext]
    exact .opened o
  · intro beat hbeat
    simp only [List.mem_cons, List.not_mem_nil, or_false] at hbeat
    rcases hbeat with rfl | rfl
    · exact hquiet₁
    · exact hquiet₂

/-- From the flagged wait the human's answer is only ever confirmed. -/
theorem awaitingHuman_answers_elsewhere (s : AwaitingHuman) (rule : RuleId) :
    ∃ beats t, TxnRun policy (.awaitingHuman s) beats t ∧ Rests t (otherChoice allocation) ∧
      ∀ beat ∈ beats, ∀ effect ∈ beat.effects, effect.demotes rule = false := by
  have hc := otherChoice_committed allocation s.core
  have h₁ : advance 0 policy (.awaitingHuman s) (.answerReceived (otherChoice allocation)) =
      .ok (advanced (.applied ⟨s.core, otherChoice allocation, hc⟩)
        [.commitToYnab (otherChoice allocation), .cancelTimer .patience]) := by
    simp only [advance, fromAwaitingHuman]
    rw [Applied.make_eq_ok hc]
    rfl
  have h₂ : ∃ tr, advance 0 policy (.applied ⟨s.core, otherChoice allocation, hc⟩)
      (.writeVerified .match) = .ok tr ∧ tr.next = .opened ⟨s.core, otherChoice allocation, hc⟩ ∧
      ∀ effect ∈ tr.effects, effect.demotes rule = false := by
    simp only [advance, fromApplied, resolveWriteVerify]
    rw [Open.make_eq_ok hc]
    refine ⟨_, rfl, rfl, ?_⟩
    simp [advanced, Effect.demotes]
  obtain ⟨tr, h₂, hnext, hquiet⟩ := h₂
  exact exists_quiet_rest h₁ h₂ hnext (by simp [Effect.demotes]) hquiet

/-- From `OPEN` under another rule or none, the human's correction names that rule, not this. -/
theorem opened_corrects_elsewhere (s : Open) (hrule : s.decision.ruleId ≠ some rule) :
    ∃ beats t, TxnRun policy (.opened s) beats t ∧ Rests t (otherChoice allocation) ∧
      ∀ beat ∈ beats, ∀ effect ∈ beat.effects, effect.demotes rule = false := by
  have hc := otherChoice_committed allocation s.core
  let signal : InboundSignal := .reply ⟨"", "", "", ""⟩
  let r : Revising := { core := s.core, instruction := signal, origin := .applied,
                        prior := some s.decision }
  have h₁ : advance 0 policy (.opened s) (.inboundReceived signal) =
      .ok (advanced (.revising r) [.cancelTimer .archive]) := rfl
  have h₂ : ∃ tr, advance 0 policy (.revising r) (.converged (.reapplied (otherChoice allocation)))
      = .ok tr ∧ tr.next = .opened ⟨s.core, otherChoice allocation, hc⟩ ∧
      ∀ effect ∈ tr.effects, effect.demotes rule = false := by
    simp only [advance, fromRevising, reapply]
    rw [Open.make_eq_ok hc]
    refine ⟨_, rfl, rfl, ?_⟩
    simp only [advanced, List.mem_cons, List.not_mem_nil, or_false]
    rintro effect (rfl | rfl | rfl)
    · simp only [Effect.demotes, reapplyFeed]
      split
      · simpa [r] using hrule
      · simp
    · rfl
    · rfl
  obtain ⟨tr, h₂, hnext, hquiet⟩ := h₂
  exact exists_quiet_rest h₁ h₂ hnext (by simp [Effect.demotes]) hquiet

/-- What a dropping step leaves behind: the human's wait, or `OPEN` under another rule; it does not
correct the rule itself. -/
theorem advance_of_dropsRule (hdrop : DropsRule txn event) (h : Holds rule allocation txn)
    (hadv : advance now policy txn event = .ok tr) :
    ((∃ s, tr.next = .awaitingHuman s) ∨
      ∃ s, tr.next = .opened s ∧ s.decision.ruleId ≠ some rule) ∧
      ∀ effect ∈ tr.effects, effect.demotes rule = false := by
  obtain ⟨d, hd, hr, -⟩ := h
  unfold DropsRule at hdrop
  split at hdrop
  · rename_i s outcome
    cases outcome with
    | «match» => exact absurd rfl hdrop.2
    | _ =>
      cases hadv; exact ⟨.inl ⟨_, rfl⟩, by simp [enterFlaggedAwaiting, advanced, Effect.demotes]⟩
  · rename_i s outcome
    cases outcome with
    | «match» => exact absurd rfl hdrop.2
    | _ =>
      cases hadv; exact ⟨.inl ⟨_, rfl⟩, by simp [enterFlaggedAwaiting, advanced, Effect.demotes]⟩
  · rename_i s outcome
    obtain ⟨p, hp, -, hgives⟩ := hdrop
    have hpd : some p = some d := hp.symm.trans hd
    cases hpd
    cases outcome with
    | reapplied decision =>
      obtain ⟨hsame, hrule⟩ := hgives
      obtain ⟨o, ho, hadv⟩ := Lib.bind_eq_ok hadv
      cases hadv
      refine ⟨.inr ⟨o, rfl, by rw [(Open.of_make ho).2, ← hr]; exact hrule⟩, ?_⟩
      simp [advanced, Effect.demotes, reapplyFeed, isCorrection, hp, hsame]
    | noChange => cases hgives
    | couldNotConfirm =>
      cases hadv; exact ⟨.inl ⟨_, rfl⟩, by simp [enterFlaggedAwaiting, advanced, Effect.demotes]⟩
    | diverged ynab asked =>
      cases hadv; exact ⟨.inl ⟨_, rfl⟩, by simp [enterFlaggedAwaiting, advanced, Effect.demotes]⟩
    | needsHuman reason => cases hadv; exact ⟨.inl ⟨_, rfl⟩, by simp [advanced, Effect.demotes]⟩
  · cases hdrop

/-- Every dropping step is one too many: from where it leads, some run rests on a human decision of
another allocation and never corrects the rule. -/
theorem exists_uncorrected_of_dropsRule (hdrop : DropsRule txn event)
    (h : Holds rule allocation txn) (hadv : advance now policy txn event = .ok tr) :
    ∃ beats t d', TxnRun policy txn (.fed txn now event tr.effects :: beats) t ∧ Rests t d' ∧
      d'.decidedBy = .human ∧ d'.allocation ≠ allocation ∧
      ∀ beat ∈ .fed txn now event tr.effects :: beats, ∀ effect ∈ beat.effects,
        effect.demotes rule = false := by
  obtain ⟨hnext, hquiet⟩ := advance_of_dropsRule hdrop h hadv
  have htail : ∃ beats t, TxnRun policy tr.next beats t ∧ Rests t (otherChoice allocation) ∧
      ∀ beat ∈ beats, ∀ effect ∈ beat.effects, effect.demotes rule = false := by
    rcases hnext with ⟨s, hs⟩ | ⟨s, hs, hrule⟩
    · rw [hs]; exact awaitingHuman_answers_elsewhere s rule
    · rw [hs]; exact opened_corrects_elsewhere s hrule
  obtain ⟨beats, t, hrun, hrests, hbeats⟩ := htail
  refine ⟨beats, t, _, .cons (.fed hadv) hrun, hrests, otherChoice_human,
    otherChoice_allocation_ne, ?_⟩
  intro beat hbeat
  rcases List.mem_cons.1 hbeat with rfl | hbeat
  · exact hquiet
  · exact hbeats beat hbeat

/-! ## A correction that demotes nothing -/

/-- A café charge auto-applied under a rule, whose write is not confirmed; the owner then answers
with another category. -/
def unconfirmedWrite : List (Datetime × LifecycleEvent) :=
  let snapshot : YnabSnapshot :=
    { ynabId := "t1", account := "checking", payee := "Corner Cafe", amount := ⟨-12500⟩,
      txnDate := 739000 }
  let auto : Decision :=
    { allocation := .category "dining" none, approved := true, decidedBy := .agent, decidedAt := 0,
      ruleId := some "r1" }
  let human : Decision :=
    { allocation := .category "groceries" none, approved := true, decidedBy := .human,
      decidedAt := 0 }
  [(0, .snapshotMaterialized snapshot false), (0, .enriched (.autoApply auto)),
    (0, .writeVerified .couldNotConfirm), (0, .answerReceived human), (0, .writeVerified .match)]

/-- The run commits dining under `r1`, rests on the human's groceries, and corrects nothing. -/
theorem correction_lost_after_unconfirmed_write :
    ∃ before commit after t d d',
      TxnRun defaultPolicy (born "t1" none) (before ++ commit :: after) t ∧
      .commitToYnab d ∈ commit.effects ∧ d.ruleId = some "r1" ∧
      Rests t d' ∧ d'.decidedBy = .human ∧ d'.allocation ≠ d.allocation ∧
      ¬ ∃ beat ∈ after, ∃ effect ∈ beat.effects, effect.demotes "r1" = true := by
  have hrun : ∃ b₁ b₂ b₃ b₄ b₅ s, runEvents defaultPolicy (born "t1" none) unconfirmedWrite
      = .ok ([b₁, b₂, b₃, b₄, b₅], .opened s) ∧ b₂.effects.head? = some (.commitToYnab
        { allocation := .category "dining" none, approved := true, decidedBy := .agent,
          decidedAt := 0, ruleId := some "r1" }) ∧
      s.decision = { allocation := .category "groceries" none, approved := true,
                     decidedBy := .human, decidedAt := 0 } ∧
      ∀ beat ∈ [b₃, b₄, b₅], ∀ effect ∈ beat.effects, effect.demotes "r1" = false :=
    ⟨_, _, _, _, _, _, rfl, rfl, rfl, by decide⟩
  obtain ⟨b₁, b₂, b₃, b₄, b₅, s, hrun, hcommit, hs, hquiet⟩ := hrun
  refine ⟨[b₁], b₂, [b₃, b₄, b₅], .opened s, _, s.decision, runEvents_run hrun,
    List.mem_of_mem_head? (by rw [hcommit]; rfl), rfl, .opened s, by rw [hs], ?_, ?_⟩
  · rw [hs]; decide
  · rintro ⟨beat, hbeat, effect, heffect, hd⟩
    rw [hquiet beat hbeat effect heffect] at hd
    cases hd

end lost

end YnabAgent
