import YnabAgent.Workflow.Threads

/-!
# The timers of a run

The machine arms and disarms timers by effects, and the driver drops one where a transition
leaves the state as it was (`domain/state_machine.py`, `workflow/txn_workflow.py`). Whether the
armed timers are those of the state is settled when the last effect of a transition is executed,
those of a verification in its middle included (`Ends`). `timers_agree`: they are as long as no
event `Strands` one.
-/

namespace YnabAgent

/-! ## Deadlines and effects -/

/-- The deadlines after the effects, whatever activities they await. -/
def timersAfter (deadlines : TimerKind → Option Datetime) : List Effect →
    TimerKind → Option Datetime
  | [] => deadlines
  | .setTimer timer deadline :: rest =>
    timersAfter (Function.update deadlines timer (some deadline)) rest
  | .cancelTimer timer :: rest => timersAfter (Function.update deadlines timer none) rest
  | _ :: rest => timersAfter deadlines rest

theorem timersAfter_append (deadlines : TimerKind → Option Datetime) (first rest : List Effect) :
    timersAfter deadlines (first ++ rest) = timersAfter (timersAfter deadlines first) rest := by
  induction first generalizing deadlines with
  | nil => rfl
  | cons e first ih => cases e <;> exact ih _

/-- Only the state's own timers are armed. -/
structure OnlyOwn (txn : Transaction) (deadlines : TimerKind → Option Datetime) : Prop where
  patience : txn.state ≠ .awaitingHuman → deadlines .patience = none
  amazonHold : txn.state ≠ .holdAmazon → deadlines .amazonHold = none
  archive : txn.state ≠ .open → txn.state ≠ .lapsed → deadlines .archive = none

/-- The armed timers agree with the state. -/
structure TimersAgree (txn : Transaction) (deadlines : TimerKind → Option Datetime) : Prop
    extends OnlyOwn txn deadlines where
  armed : ∀ s, txn = .awaitingHuman s → deadlines .patience = some s.patienceDeadline

/-- An event that leaves a timer armed which the next state does not own, or disarms the one it
owns: the hold runs out, the owner's patience does, the book is closed, or an answer's write does
not read back. -/
def Strands (txn : Transaction) (event : LifecycleEvent) : Prop :=
  match txn, event with
  | .holdAmazon _, .holdDeadlineReached => True
  | .awaitingHuman s, .patienceExpired => s.flag = .none
  | .opened s, .archiveWindowReached => s.core.snapshot.reconciled = true
  | .opened s, .overrideDetected _ => s.core.snapshot.reconciled = true
  | .lapsed s, .archiveWindowReached =>
    s.core.snapshot.reconciled = true ∧ s.core.snapshot.categorized = true
  | .applied _, .writeVerified outcome => outcome ≠ .match
  | _, _ => False

/-- What the deadlines are while a write is not verified: an answer's leaves the patience to be
cancelled, the gate's has none. -/
structure Pending (txn : Transaction) (deadlines : TimerKind → Option Datetime)
    (rest : List Effect) : Prop where
  amazonHold : deadlines .amazonHold = none
  archive : deadlines .archive = none
  owed : (∃ s, txn = .applied s) ∧ rest = [.cancelTimer .patience] ∨
    (∃ s, txn = .autoApplied s) ∧ deadlines .patience = none ∧
      ∃ ynabId, rest = [.recordAutoAction ynabId]

section moves
variable {now : Datetime} {policy : LifecyclePolicy} {txn next : Transaction}
  {event : LifecycleEvent} {effects : List Effect} {deadlines : TimerKind → Option Datetime}

theorem timersAfter_replayPending (pending : List InboundSignal) :
    timersAfter deadlines (replayPending pending) = deadlines := by
  unfold replayPending
  split <;> rfl

theorem timersAfter_writeFeed (core : TxnCore) (decision : Decision)
    (learning : Option RuleLearningKind) :
    timersAfter deadlines (writeFeed core decision learning) = deadlines := by
  cases learning <;> rfl

theorem timersAfter_proposal (core : TxnCore) (rest : List Effect) :
    timersAfter deadlines (proposalEffect core :: rest) = timersAfter deadlines rest := by
  unfold proposalEffect
  split <;> rfl

/-- Entering `AWAITING_HUMAN` with its own deadline, whatever the patience was. -/
theorem TimersAgree.await (hhold : deadlines .amazonHold = none)
    (harchive : deadlines .archive = none) (s : AwaitingHuman) :
    TimersAgree (.awaitingHuman s)
      (Function.update deadlines .patience (some s.patienceDeadline)) := by
  refine ⟨⟨fun h => absurd rfl h, fun _ => hhold, fun _ _ => harchive⟩, ?_⟩
  intro s' hs
  cases hs
  exact Function.update_self ..

/-- A resting state may have its archive window armed. -/
theorem TimersAgree.rest (hstate : txn.state = .open ∨ txn.state = .lapsed)
    (hpatience : deadlines .patience = none) (hhold : deadlines .amazonHold = none) :
    TimersAgree txn deadlines := by
  refine ⟨⟨fun _ => hpatience, fun _ => hhold, ?_⟩, ?_⟩
  · intro hopen hlapsed
    exact absurd hstate (not_or.2 ⟨hopen, hlapsed⟩)
  · rintro s rfl
    rcases hstate with h | h <;> cases h

/-- No timer is armed at all. -/
theorem TimersAgree.none (hstate : txn.state ≠ .awaitingHuman)
    (hpatience : deadlines .patience = none) (hhold : deadlines .amazonHold = none)
    (harchive : deadlines .archive = none) : TimersAgree txn deadlines := by
  refine ⟨⟨fun _ => hpatience, fun _ => hhold, fun _ _ => harchive⟩, ?_⟩
  rintro s rfl
  exact absurd rfl hstate

theorem TimersAgree.withThread (h : TimersAgree txn deadlines) (threadId : ThreadId) :
    TimersAgree (txn.withThread threadId) deadlines := by
  have hstate := txn.withThread_state threadId
  refine ⟨⟨?_, ?_, ?_⟩, ?_⟩
  · rw [hstate]
    exact h.patience
  · rw [hstate]
    exact h.amazonHold
  · rw [hstate]
    exact h.archive
  · intro s hs
    cases txn with
    | awaitingHuman s' =>
      cases hs
      exact h.armed s' rfl
    | _ => cases hs

/-- A move that neither writes nor verifies keeps the agreement, unless it strands a timer. -/
theorem Move.timersAgree (h : Move now policy txn event next effects)
    (hagree : TimersAgree txn deadlines) (hsafe : ¬ Strands txn event)
    (hwrites : ∀ decision, .commitToYnab decision ∉ effects) :
    TimersAgree next (timersAfter deadlines effects) := by
  obtain ⟨⟨hpatience, hhold, harchive⟩, harmed⟩ := hagree
  cases h with
  | stay => exact ⟨⟨hpatience, hhold, harchive⟩, harmed⟩
  | hold s snapshot =>
    rw [timersAfter, timersAfter_replayPending]
    refine ⟨⟨fun _ => hpatience nofun, fun h => absurd rfl h, fun _ _ => harchive nofun nofun⟩, ?_⟩
    rintro s ⟨⟩
  | materialize s snapshot =>
    rw [timersAfter_replayPending]
    exact .none nofun (hpatience nofun) (hhold nofun) (harchive nofun nofun)
  | buffer s signal => exact .none nofun (hpatience nofun) (hhold nofun) (harchive nofun nofun)
  | holdResolved s snapshot =>
    exact .none nofun (hpatience nofun) rfl (harchive nofun nofun)
  | holdDeadline s => exact absurd trivial hsafe
  | holdInbound s signal =>
    exact .none nofun (hpatience nofun) rfl (harchive nofun nofun)
  | autoApply s decision a hcore hdecision => exact absurd List.mem_cons_self (hwrites decision)
  | askHuman s proposal =>
    rw [timersAfter_proposal]
    exact .await (hhold nofun) (harchive nofun nofun) _
  | enrichingInbound s signal =>
    exact .none nofun (hpatience nofun) (hhold nofun) (harchive nofun nofun)
  | verified hw o hcore hdecision =>
    rw [timersAfter_append, timersAfter_writeFeed]
    cases hw <;> exact .rest (.inl rfl) (hpatience nofun) (hhold nofun)
  | unverified hw outcome houtcome flag note hnote =>
    cases hw <;> exact .await (hhold nofun) (harchive nofun nofun) _
  | answer s decision a hcore hdecision => exact absurd List.mem_cons_self (hwrites decision)
  | clarify s question => exact .await (hhold nofun) (harchive nofun nofun) _
  | lapse s hflag => exact absurd hflag hsafe
  | awaitingInbound s signal => exact ⟨⟨hpatience, hhold, harchive⟩, harmed⟩
  | reopen s signal =>
    exact .none nofun (hpatience nofun) (hhold nofun) rfl
  | archive s a hcore hfinal =>
    have hrec : s.core.snapshot.reconciled = true := hcore ▸ a.reconciled
    exact absurd hrec hsafe
  | override s decision o hcore hdecision => exact .rest (.inl rfl) (hpatience nofun) (hhold nofun)
  | overrideArchive s decision a hcore hfinal =>
    have hrec : s.core.snapshot.reconciled = true := hcore ▸ a.reconciled
    exact absurd hrec hsafe
  | reopenLapsed s signal =>
    exact .none nofun (hpatience nofun) (hhold nofun) rfl
  | archiveNotice s => exact .rest (.inr rfl) (hpatience nofun) (hhold nofun)
  | archiveLapsed s a hcore hfinal =>
    have hrec : s.core.snapshot.reconciled = true := hcore ▸ a.reconciled
    have hcat : s.core.snapshot.categorized = true := hcore ▸ a.categorized hfinal
    exact absurd ⟨hrec, hcat⟩ hsafe
  | reapply s decision o hcore hdecision => exact .rest (.inl rfl) (hpatience nofun) (hhold nofun)
  | restored s prior hprior o hcore hdecision =>
    exact .rest (.inl rfl) (hpatience nofun) (hhold nofun)
  | rearmed s h => exact .await (hhold nofun) (harchive nofun nofun) _
  | unconverged s outcome houtcome flag note detail hnote =>
    exact .await (hhold nofun) (harchive nofun nofun) _
  | retarget s signal => exact .none nofun (hpatience nofun) (hhold nofun) (harchive nofun nofun)

/-- A move that writes leaves what a write under way has. -/
theorem Move.pending (h : Move now policy txn event next effects) (hown : OnlyOwn txn deadlines)
    {decision : Decision} (hcommit : .commitToYnab decision ∈ effects) :
    ∃ rest, effects = .commitToYnab decision :: rest ∧ Pending next deadlines rest := by
  rcases h.commit_cases hcommit with ⟨a, rfl, rfl, -, heffects⟩ | ⟨a, rfl, rfl, -, heffects⟩
  · cases h with
    | stay => cases heffects
    | autoApply s decision a hcore hdecision =>
      exact ⟨_, heffects, hown.amazonHold nofun, hown.archive nofun nofun,
        .inr ⟨⟨a, rfl⟩, hown.patience nofun, _, rfl⟩⟩
  · cases h with
    | stay => cases heffects
    | answer s decision a hcore hdecision =>
      exact ⟨_, heffects, hown.amazonHold nofun, hown.archive nofun nofun, .inl ⟨⟨a, rfl⟩, rfl⟩⟩

/-- A verification of a write under way ends in agreement, unless an answer's write does not read
back. -/
theorem Pending.verified {tr : Transition} {outcome : VerifyOutcome} {rest : List Effect}
    (h : Pending txn deadlines rest) (hsafe : ¬ Strands txn (.writeVerified outcome))
    (hadv : advance now policy txn (.writeVerified outcome) = .ok tr) :
    TimersAgree tr.next (timersAfter deadlines (tr.effects ++ rest)) ∧
      ∀ decision, .commitToYnab decision ∉ tr.effects ++ rest := by
  have hhold := h.amazonHold
  have harchive := h.archive
  rcases h.owed with ⟨⟨s, rfl⟩, rfl⟩ | ⟨⟨s, rfl⟩, hpatience, ynabId, rfl⟩
  · have hmatch : outcome = .match := not_not.1 hsafe
    subst hmatch
    obtain ⟨o, -, h⟩ := Lib.bind_eq_ok hadv
    cases h
    refine ⟨.rest (.inl rfl) rfl hhold, ?_⟩
    intro decision hmem
    simp [advanced] at hmem
  · cases outcome with
    | «match» =>
      obtain ⟨o, -, h⟩ := Lib.bind_eq_ok hadv
      cases h
      refine ⟨.rest (.inl rfl) hpatience hhold, ?_⟩
      intro decision hmem
      simp [advanced] at hmem
    | couldNotConfirm =>
      cases hadv
      refine ⟨.await hhold harchive _, ?_⟩
      intro decision hmem
      simp [enterFlaggedAwaiting, advanced] at hmem
    | diverged =>
      cases hadv
      refine ⟨.await hhold harchive _, ?_⟩
      intro decision hmem
      simp [enterFlaggedAwaiting, advanced] at hmem

/-- What an inbound comes to arms the patience anew, or writes. -/
theorem replied_timers {tr : Transition} {s : AwaitingHuman} {outcome : ReplyOutcome}
    (hown : OnlyOwn (.awaitingHuman s) deadlines)
    (hadv : advance now policy (.awaitingHuman s) (replyEvent outcome) = .ok tr) :
    (∃ decision rest, tr.effects = .commitToYnab decision :: rest ∧
      Pending tr.next deadlines rest) ∨
    TimersAgree tr.next (timersAfter deadlines tr.effects) ∧
      ∀ decision, .commitToYnab decision ∉ tr.effects := by
  cases outcome with
  | answer decision =>
    obtain ⟨a, -, h⟩ := Lib.bind_eq_ok hadv
    cases h
    left
    exact ⟨_, _, rfl, hown.amazonHold nofun, hown.archive nofun nofun, .inl ⟨⟨a, rfl⟩, rfl⟩⟩
  | clarify question =>
    cases hadv
    right
    refine ⟨.await (hown.amazonHold nofun) (hown.archive nofun nofun) _, ?_⟩
    intro decision hmem
    simp [advanced] at hmem

end moves

namespace Driver

variable {d d' d₀ d₁ : Driver} {m : Moment} {effects rest : List Effect} {resume : Resume}

/-! ## The end of a dispatch -/

/-- The driver past the effects, where none of them awaits an activity. -/
def settle (d : Driver) : List Effect → Option Driver
  | [] => some d
  | effect :: rest =>
    match d.perform effect with
    | .settled d' => d'.settle rest
    | .awaits _ _ => none

section turns
variable (text : PyText) {δ : Type} [DecidableEq δ] (digest : TargetState → δ)

/-- The steps that execute effects, with the driver they begin from: those of a transition, or those
left after an activity. -/
inductive Executes (d : Driver) : Act → Moment → Driver → List Effect → Resume → Prop
  | fed {act : Act} {m : Moment} {event : LifecycleEvent} {rest : List Effect} {resume : Resume}
      {d₁ : Driver} {tr : Transition} (h : Feeds text digest d act m event rest resume d₁)
      (hadv : advance m.now defaultPolicy d₁.txn event = .ok tr) :
      Executes d act m (syncThreadId { d₁ with txn := tr.next }) (tr.effects ++ rest) resume
  | opened {proposal : Option Proposal} {purpose : MessagePurpose} {detail : Option String}
      {decision : Option Decision} {rest : List Effect} {resume : Resume} (m : Moment)
      (threadId : ThreadId)
      (hpc : d.pc = .calling (.openThread proposal purpose detail decision) rest resume) :
      Executes d (.returned m (.thread threadId)) m (d.setThreadId threadId) rest resume
  | wentOn {c : Call} {rest : List Effect} {resume : Resume} (m : Moment)
      (hpc : d.pc = .calling c rest resume) (hc : c.plain = true) :
      Executes d (.returned m .done) m d rest resume
  | unrecorded {ynabId : YnabTransactionId} {rest : List Effect} {resume : Resume} (m : Moment)
      (hpc : d.pc = .calling (.recordAutoAction ynabId) rest resume) :
      Executes d (.failed m) m d rest resume

/-- The step executes the last effect of a dispatch, and `d₁` is the driver then. -/
def Ends (d : Driver) (act : Act) (d₁ : Driver) : Prop :=
  ∃ m d₀ effects resume, Executes text digest d act m d₀ effects resume ∧
    d₀.settle effects = some d₁

end turns

/-! ## The timers of a suspended driver -/

/-- What a resumption drops is the patience of a driver that goes on to wait for a reply, or an
archive window. -/
def Drops : Resume → Prop
  | .unlessLeft _ timer w => timer = .patience ∧ w = .reply ∨ timer = .archive ∧ w = .blocked
  | _ => True

/-- The timers while the driver is suspended, so that they agree at the end of the dispatch. -/
def Armed (d : Driver) : Prop :=
  match d.pc with
  | .calling c rest resume =>
    Drops resume ∧
      match c with
      | .commitToYnab _ | .readBack (some _) => Pending d.txn d.deadlines rest
      | .interpretInbound _ _ _ => (∃ s, d.txn = .awaitingHuman s) ∧ OnlyOwn d.txn d.deadlines
      | .fetchSnapshot | .enrich _ | .converge _ _ _ | .readBack none =>
        TimersAgree d.txn d.deadlines
      | _ => TimersAgree d.txn (timersAfter d.deadlines rest)
  | .waiting .reply => OnlyOwn d.txn d.deadlines
  | .waiting _ => TimersAgree d.txn d.deadlines
  | _ => True

theorem armed_wait {w : Wait} (h : TimersAgree d.txn d.deadlines) : (d.wait w).Armed := by
  cases w with
  | reply => exact h.toOnlyOwn
  | _ => exact h

theorem beginStep_armed (h : TimersAgree d.txn d.deadlines) : d.beginStep.Armed := by
  unfold beginStep
  split
  · exact ⟨trivial, h⟩
  · exact ⟨trivial, h⟩
  · exact armed_wait h
  · exact armed_wait h
  · exact armed_wait h
  · exact armed_wait h
  · exact ⟨trivial, h⟩
  · trivial
  · trivial
  · trivial

theorem endStep_armed (h : TimersAgree d.txn d.deadlines) : (d.endStep m).Armed := by
  unfold endStep
  split
  · have hbegin := beginStep_armed (d := syncThreadId
      { txn := d.txn, ynabId := d.ynabId, threadId := d.threadId, deadlines := d.deadlines,
        inbound := d.inbound, actionSeq := d.actionSeq }) h
    exact hbegin
  · exact beginStep_armed h

/-- Where the dispatch ends in agreement, the driver goes on armed. -/
theorem finish_armed (h : TimersAgree d.txn d.deadlines) (hdrops : Drops resume) :
    (d.finish m resume).Armed := by
  cases resume with
  | nextStep => exact endStep_armed h
  | awaitSnapshot => exact armed_wait h
  | unlessLeft before timer w =>
    simp only [finish]
    split
    · have hown : OnlyOwn d.txn (Function.update d.deadlines timer none) := by
        have hnone : ∀ t, d.deadlines t = none →
            Function.update d.deadlines timer none t = none := by
          intro t ht
          by_cases heq : t = timer
          · rw [heq, Function.update_self]
          · rw [Function.update_of_ne heq, ht]
        exact ⟨fun hs => hnone _ (h.patience hs), fun hs => hnone _ (h.amazonHold hs),
          fun hs hs' => hnone _ (h.archive hs hs')⟩
      rcases hdrops with ⟨rfl, rfl⟩ | ⟨rfl, rfl⟩
      · exact hown
      · refine ⟨hown, fun s hs => ?_⟩
        exact h.armed s hs
    · exact endStep_armed h

/-- An effect done at once is counted by `timersAfter`. -/
theorem perform_settled_timers {e : Effect} (h : d.perform e = .settled d') :
    timersAfter d.deadlines (e :: rest) = timersAfter d'.deadlines rest := by
  cases e with
  | sendThreadMessage purpose detail decision =>
    simp only [perform] at h
    split at h
    · cases h
    · cases h
  | closeThread =>
    simp only [perform] at h
    split at h
    · cases h
      rfl
    · cases h
  | setTimer timer deadline => cases h; rfl
  | cancelTimer timer => cases h; rfl
  | replayBuffered signals => cases h; rfl
  | _ => cases h

/-- An effect that awaits an activity, but for a commit, leaves the driver armed. -/
theorem perform_awaits_armed {e : Effect} {c : Call} (h : d.perform e = .awaits c d')
    (he : ∀ decision, e ≠ .commitToYnab decision)
    (hagree : TimersAgree d.txn (timersAfter d.deadlines (e :: rest))) (hdrops : Drops resume) :
    (d'.call c rest resume).Armed := by
  cases e with
  | commitToYnab decision => exact absurd rfl (he decision)
  | sendThreadMessage purpose detail decision =>
    simp only [perform] at h
    split at h
    · cases h
      exact ⟨hdrops, hagree⟩
    · cases h
      exact ⟨hdrops, hagree⟩
  | closeThread =>
    simp only [perform] at h
    split at h
    · cases h
    · cases h
      exact ⟨hdrops, hagree⟩
  | openThread => cases h; exact ⟨hdrops, hagree⟩
  | feedRuleLearning feed => cases h; exact ⟨hdrops, hagree⟩
  | recordAutoAction ynabId => cases h; exact ⟨hdrops, hagree⟩
  | _ => cases h

/-- **Executing effects.** Where the timers agree past the effects, they do at the end of the
dispatch, and the driver is armed wherever it is suspended. -/
theorem execute_armed (hagree : TimersAgree d.txn (timersAfter d.deadlines effects))
    (hwrites : ∀ decision, .commitToYnab decision ∉ effects) (hdrops : Drops resume) :
    (d.execute m resume effects).Armed ∧
      ∀ d₁, d.settle effects = some d₁ → TimersAgree d₁.txn d₁.deadlines := by
  induction effects generalizing d with
  | nil =>
    refine ⟨finish_armed hagree hdrops, ?_⟩
    rintro d₁ ⟨⟩
    exact hagree
  | cons e rest ih =>
    have hrest : ∀ decision, .commitToYnab decision ∉ rest :=
      fun decision hmem => hwrites decision (List.mem_cons_of_mem _ hmem)
    unfold execute settle
    cases hperform : d.perform e with
    | settled d' =>
      have htxn := perform_txn d e
      rw [hperform] at htxn
      rw [perform_settled_timers hperform] at hagree
      rw [← show d'.txn = d.txn from htxn] at hagree
      simp only
      exact ih hagree hrest
    | awaits c d' =>
      simp only
      refine ⟨perform_awaits_armed hperform ?_ hagree hdrops, ?_⟩
      · rintro decision rfl
        exact hwrites decision List.mem_cons_self
      · intro d₁ hnone
        cases hnone

/-! ## One step -/

section steps
variable {text : PyText} {δ : Type} [DecidableEq δ] {digest : TargetState → δ} {act : Act}
  {event : LifecycleEvent} {tr : Transition}

/-- A step that feeds no event that strands a timer. -/
def Unstranded (text : PyText) (digest : TargetState → δ) (d : Driver) (act : Act) : Prop :=
  ∀ m event rest resume d₁, Feeds text digest d act m event rest resume d₁ →
    ¬ Strands d₁.txn event

/-- What holds when a step has executed effects. -/
def Armed.Ended (d₀ : Driver) (m : Moment) (effects : List Effect) (resume : Resume) : Prop :=
  (d₀.execute m resume effects).Armed ∧
    ∀ d₁, d₀.settle effects = some d₁ → TimersAgree d₁.txn d₁.deadlines

/-- A write is awaited before anything else of its transition. -/
theorem execute_commit (decision : Decision) (hpending : Pending d.txn d.deadlines rest)
    (hdrops : Drops resume) : Armed.Ended d m (.commitToYnab decision :: rest) resume := by
  refine ⟨⟨hdrops, hpending⟩, ?_⟩
  intro d₁ hends
  cases hends

/-- The event of a driver whose timers agree leaves it armed. -/
theorem dispatch_armed (hagree : TimersAgree d.txn d.deadlines)
    (hadv : advance m.now defaultPolicy d.txn event = .ok tr) (hsafe : ¬ Strands d.txn event)
    (hdrops : Drops resume) :
    Armed.Ended (syncThreadId { d with txn := tr.next }) m (tr.effects ++ []) resume := by
  have hmove := advance_move hadv
  rw [List.append_nil]
  by_cases hwrites : ∃ decision, .commitToYnab decision ∈ tr.effects
  · obtain ⟨decision, hmem⟩ := hwrites
    obtain ⟨rest, heffects, hpending⟩ := hmove.pending hagree.toOnlyOwn hmem
    rw [heffects]
    exact execute_commit decision hpending hdrops
  · have hnone : ∀ decision, .commitToYnab decision ∉ tr.effects :=
      fun decision hmem => hwrites ⟨decision, hmem⟩
    exact execute_armed (hmove.timersAgree hagree hsafe hnone) hnone hdrops

/-- A driver that feeds an event is armed past its effects, and where the dispatch ends the timers
agree. -/
theorem Feeds.armed (h : Feeds text digest d act m event rest resume d₁) (hd : d.Armed)
    (hadv : advance m.now defaultPolicy d₁.txn event = .ok tr)
    (hsafe : ¬ Strands d₁.txn event) :
    Armed.Ended (syncThreadId { d₁ with txn := tr.next }) m (tr.effects ++ rest) resume := by
  unfold Armed at hd
  cases h with
  | fetched m snapshot hpc =>
    rw [hpc] at hd
    exact dispatch_armed hd.2 hadv hsafe trivial
  | unavailable m hpc =>
    rw [hpc] at hd
    exact dispatch_armed hd.2 hadv hsafe trivial
  | enriched m outcome hpc =>
    rw [hpc] at hd
    exact dispatch_armed hd.2 hadv hsafe trivial
  | interpreted m outcome hpc =>
    rw [hpc] at hd
    obtain ⟨-, ⟨s, hs⟩, hown⟩ := hd
    rw [hs] at hadv hown
    rw [List.append_nil]
    rcases replied_timers hown hadv with ⟨decision, rest, heffects, hpending⟩ | ⟨hagree, hnone⟩
    · rw [heffects]
      exact execute_commit decision hpending trivial
    · exact execute_armed hagree hnone trivial
  | converged m outcome hpc =>
    rw [hpc] at hd
    exact dispatch_armed (d := { d with consumed := _ }) hd.2 hadv hsafe trivial
  | verified m target? hpc =>
    rw [hpc] at hd
    obtain ⟨hdrops, hpending⟩ := hd
    obtain ⟨hagree, hnone⟩ := hpending.verified hsafe hadv
    exact execute_armed hagree hnone hdrops
  | reread m target? s hpc htxn =>
    rw [hpc] at hd
    exact dispatch_armed hd.2 hadv hsafe (.inr ⟨rfl, rfl⟩)
  | notified m snapshot hpc hready =>
    rw [hpc] at hd
    exact dispatch_armed (d := { d with snapshotReady := none }) hd hadv hsafe trivial
  | backfilled m snapshot hpc hready =>
    rw [hpc] at hd
    exact dispatch_armed (d := { d with snapshotReady := none }) hd hadv hsafe trivial
  | @received w signal queue m hpc hw hqueue =>
    rw [hpc] at hd
    have hagree : TimersAgree d.txn d.deadlines := by
      cases w with
      | reply => exact absurd rfl (hw 0).2
      | _ => exact hd
    exact dispatch_armed (d := { d with inbound := queue }) hagree hadv hsafe trivial
  | holdOver m hpc =>
    rw [hpc] at hd
    exact dispatch_armed hd hadv hsafe trivial
  | patienceOver m hpc =>
    rw [hpc] at hd
    exact dispatch_armed hd hadv hsafe (.inl ⟨rfl, rfl⟩)
  | archiveDue m hpc htxn =>
    rw [hpc] at hd
    exact dispatch_armed hd hadv hsafe (.inr ⟨rfl, rfl⟩)

/-- What is left after an activity with a plain result. -/
theorem Armed.plain (hd : d.Armed) {c : Call} (hpc : d.pc = .calling c rest resume)
    (hc : c.plain = true) :
    TimersAgree d.txn (timersAfter d.deadlines rest) ∧ Drops resume := by
  unfold Armed at hd
  rw [hpc] at hd
  cases c with
  | sendThreadMessage threadId purpose actionSeq proposal detail decision => exact hd.symm
  | feedRuleLearning feed => exact hd.symm
  | recordAutoAction ynabId => exact hd.symm
  | closeThread threadId => exact hd.symm
  | _ => cases hc

theorem trailing_not_commit (h : Trailing rest) (decision : Decision) :
    .commitToYnab decision ∉ rest := by
  intro hmem
  cases h _ hmem

theorem Executes.armed (h : Executes text digest d act m d₀ effects resume) (hcalling : d.Calling)
    (hd : d.Armed) (hsafe : Unstranded text digest d act) : Armed.Ended d₀ m effects resume := by
  cases h with
  | fed hfeeds hadv => exact hfeeds.armed hd hadv (hsafe _ _ _ _ _ hfeeds)
  | opened m threadId hpc =>
    have hnone := trailing_not_commit (hcalling.made _ _ _ hpc).2
    unfold Armed at hd
    rw [hpc] at hd
    exact execute_armed (d := d.setThreadId threadId) (hd.2.withThread threadId) hnone hd.1
  | wentOn m hpc hc =>
    obtain ⟨hagree, hdrops⟩ := hd.plain hpc hc
    exact execute_armed hagree (trailing_not_commit (hcalling.made _ _ _ hpc).2) hdrops
  | unrecorded m hpc =>
    obtain ⟨hagree, hdrops⟩ := hd.plain hpc rfl
    exact execute_armed hagree (trailing_not_commit (hcalling.made _ _ _ hpc).2) hdrops

/-- One step that strands nothing. -/
theorem Turn.armed (h : Turn text digest d act d') (hcalling : d.Calling) (hd : d.Armed)
    (hsafe : Unstranded text digest d act) : d'.Armed := by
  cases h with
  | accept signal hopen => exact hd
  | notify snapshot hopen => exact hd
  | fed hfeeds hadv => exact (Executes.armed (.fed hfeeds hadv) hcalling hd hsafe).1
  | raised hfeeds herr => trivial
  | @interpret w s signal queue m hpc htxn hqueue =>
    refine ⟨trivial, ⟨_, htxn⟩, ?_⟩
    unfold Armed at hd
    rw [hpc] at hd
    cases w with
    | reply => exact hd
    | _ => exact hd.toOnlyOwn
  | reread m hpc htxn =>
    unfold Armed at hd
    rw [hpc] at hd
    exact ⟨trivial, hd⟩
  | committed m hpc =>
    unfold Armed at hd
    rw [hpc] at hd
    exact hd
  | opened m threadId hpc =>
    exact (Executes.armed (.opened m threadId hpc) hcalling hd hsafe).1
  | wentOn m hpc hc => exact (Executes.armed (.wentOn m hpc hc) hcalling hd hsafe).1
  | unrecorded m hpc => exact (Executes.armed (.unrecorded m hpc) hcalling hd hsafe).1
  | failed m hpc => trivial

end steps

end Driver

/-! ## Runs -/

section runs
variable {text : PyText} {δ : Type} [DecidableEq δ] {digest : TargetState → δ}
  {ynabId : YnabTransactionId} {threadId : Option ThreadId} {beats : List DriverBeat} {d : Driver}

theorem start_armed (ynabId : YnabTransactionId) (threadId : Option ThreadId) :
    (Driver.start { ynabId, threadId }).Armed := by
  refine ⟨trivial, .none nofun rfl rfl rfl⟩

/-- **The timers of a run.** In a run none of whose steps strands a timer, the armed timers agree
with the state wherever a dispatch ends. -/
theorem timers_agree
    (h : Driver.Run text digest (Driver.start { ynabId := ynabId, threadId := threadId }) beats d)
    (hsafe : ∀ beat ∈ beats, Driver.Unstranded text digest beat.pre beat.act) :
    ∀ beat ∈ beats, ∀ d₁, Driver.Ends text digest beat.pre beat.act d₁ →
      TimersAgree d₁.txn d₁.deadlines := by
  intro beat hbeat d₁ hends
  obtain ⟨before, after, rfl⟩ := List.append_of_mem hbeat
  have heach := h.each (I := fun _ d => d.Calling ∧ d.Armed) hsafe
    ⟨Driver.start_calls ynabId threadId, start_armed ynabId threadId⟩ ?_ rfl
  · obtain ⟨pre, post, ⟨hcalling, harmed⟩, hstep⟩ := heach
    cases hstep with
    | step hs =>
      obtain ⟨m, d₀, effects, resume, hexecutes, hsettle⟩ := hends
      exact (hexecutes.armed hcalling harmed (hsafe _ hbeat)).2 d₁ hsettle
  · rintro beats d beat d' ⟨hcalling, harmed⟩ hunstranded hstep
    cases hstep with
    | step hs =>
      have hturn := Driver.step_turn hs
      exact ⟨hturn.calling hcalling, hturn.armed hcalling harmed hunstranded⟩

/-- Before the first contact no event strands a timer, but for a hold's end. -/
theorem unstranded_of_state {act : Driver.Act}
    (hstate : d.txn.state = .discovered ∨ d.txn.state = .enriching) :
    Driver.Unstranded text digest d act := by
  intro m event rest resume d₁ hfeeds hstrands
  rw [← hfeeds.same.txn_eq] at hstate
  cases htxn : d₁.txn with
  | discovered s =>
    rw [htxn] at hstrands
    exact hstrands
  | enriching s =>
    rw [htxn] at hstrands
    exact hstrands
  | _ =>
    rw [htxn] at hstate
    rcases hstate with h | h <;> cases h

end runs

/-! ## An answer that does not read back -/

/-- The charge is proposed on a new thread. -/
def proposed : List Driver.Act :=
  [.returned ⟨0, 0⟩ (.snapshot (some reconciledSnapshot)),
    .returned ⟨0, 0⟩ (.enriched (.askHuman diningProposal)), .returned ⟨0, 0⟩ (.thread "t1")]

/-- Once the proposal is sent, the patience is armed. -/
theorem timers_agree_proposed :
    ∃ beats d, Driver.Run PyText.ascii (fun t : TargetState => t)
      (Driver.start { ynabId := "y1" }) beats d ∧
      ∃ beat ∈ beats, ∃ d₁,
        Driver.Ends PyText.ascii (fun t : TargetState => t) beat.pre beat.act d₁ ∧
        d₁.txn.state = .awaitingHuman ∧ TimersAgree d₁.txn d₁.deadlines := by
  have hexec : ∃ d₁ d₂ d₃ d d₄, Lib.exec (Driver.step PyText.ascii fun t : TargetState => t)
      (Driver.start { ynabId := "y1" }) proposed =
        some ([⟨d₁, .returned ⟨0, 0⟩ (.snapshot (some reconciledSnapshot))⟩,
          ⟨d₂, .returned ⟨0, 0⟩ (.enriched (.askHuman diningProposal))⟩,
          ⟨d₃, .returned ⟨0, 0⟩ (.thread "t1")⟩], d) ∧
      d₁.txn.state = .discovered ∧ d₂.txn.state = .enriching ∧
      Driver.Ends PyText.ascii (fun t : TargetState => t) d₃ (.returned ⟨0, 0⟩ (.thread "t1")) d₄ ∧
      d₄.txn.state = .awaitingHuman :=
    ⟨_, _, _, _, _, rfl, rfl, rfl, ⟨_, _, _, _, .opened _ _ rfl, rfl⟩, rfl⟩
  obtain ⟨d₁, d₂, d₃, d, d₄, hexec, hdiscovered, henriching, hends, hstate⟩ := hexec
  have hrun := Lib.exec_run hexec
  have hmem : (⟨d₃, .returned ⟨0, 0⟩ (.thread "t1")⟩ : DriverBeat) ∈
      ([⟨d₁, .returned ⟨0, 0⟩ (.snapshot (some reconciledSnapshot))⟩,
        ⟨d₂, .returned ⟨0, 0⟩ (.enriched (.askHuman diningProposal))⟩,
        ⟨d₃, .returned ⟨0, 0⟩ (.thread "t1")⟩] : List DriverBeat) := by
    simp
  refine ⟨_, d, hrun, _, hmem, d₄, hends, hstate, timers_agree hrun ?_ _ hmem d₄ hends⟩
  intro beat hbeat
  simp only [List.mem_cons, List.not_mem_nil, or_false] at hbeat
  rcases hbeat with rfl | rfl | rfl
  · exact unstranded_of_state (.inl hdiscovered)
  · exact unstranded_of_state (.inr henriching)
  · -- the opening's result is no event
    intro m event rest resume d' hfeeds
    cases hfeeds

/-- The owner answers, and nothing reads back. -/
def unread : List Driver.Act :=
  proposed ++ [.submitInbound diningReply, .wake ⟨1, 0⟩,
    .returned ⟨1, 0⟩ (.interpreted (.answer (humanDecision "dining" 1 none))),
    .returned ⟨1, 0⟩ .done, .returned ⟨1, 0⟩ (.read none)]

/-- The transaction waits for its owner again, and the cancellation that the answer left to execute
has taken the patience from under it. -/
theorem patience_cancelled :
    ∃ beats d d₁, Driver.Run PyText.ascii (fun t : TargetState => t)
      (Driver.start { ynabId := "y1" }) beats d ∧
      Driver.Ends PyText.ascii (fun t : TargetState => t) d (.returned ⟨1, 0⟩ .done) d₁ ∧
      d₁.txn.state = .awaitingHuman ∧ d₁.deadlines .patience = none ∧
      ¬ TimersAgree d₁.txn d₁.deadlines := by
  have hexec : ∃ beats d d₁, Lib.exec (Driver.step PyText.ascii fun t : TargetState => t)
      (Driver.start { ynabId := "y1" }) unread = some (beats, d) ∧
      Driver.Ends PyText.ascii (fun t : TargetState => t) d (.returned ⟨1, 0⟩ .done) d₁ ∧
      (∃ s, d₁.txn = .awaitingHuman s) ∧ d₁.deadlines .patience = none :=
    ⟨_, _, _, rfl, ⟨_, _, _, _, .wentOn _ rfl rfl, rfl⟩, ⟨_, rfl⟩, rfl⟩
  obtain ⟨beats, d, d₁, hexec, hends, ⟨s, hs⟩, hnone⟩ := hexec
  refine ⟨beats, d, d₁, Lib.exec_run hexec, hends, by rw [hs]; rfl, hnone, ?_⟩
  intro hagree
  have harmed := hagree.armed s hs
  rw [hnone] at harmed
  cases harmed

end YnabAgent
