import YnabAgent.Domain.Writes
import YnabAgent.Workflow.Carried
import YnabAgent.Workflow.ContinueAsNew
import YnabAgent.Workflow.Guard

/-!
# What prompts a write

YNAB is written by the commit of a decision and by a converge run. A wait that times out leads to
neither by itself: before the next write the charge is enriched again, or an inbound is taken from
the queue, the reply an answer is read in or the instruction converge is called with (`Prompted`).
-/

namespace YnabAgent

/-- Only an inbound leads to a revision, by that inbound. -/
theorem Move.revising {now : Datetime} {policy : LifecyclePolicy} {txn : Transaction} {s : Revising}
    {event : LifecycleEvent} {effects : List Effect}
    (h : Move now policy txn event (.revising s) effects) :
    (txn = .revising s ∧ effects = []) ∨ event = .inboundReceived s.instruction := by
  generalize hnext : Transaction.revising s = next at h
  cases h with
  | stay => exact .inl ⟨rfl, rfl⟩
  | reopen s signal => cases hnext; exact .inr rfl
  | reopenLapsed s signal => cases hnext; exact .inr rfl
  | retarget s signal => cases hnext; exact .inr rfl
  | _ => cases hnext

/-- Only a reply is read as an answer. -/
theorem interpretInbound_reply {text : PyText} {interpret : InterpretRequest → Interpretation}
    {candidates : List CandidateCategory} {now : Datetime} {signal : InboundSignal}
    {snapshot : YnabSnapshot} {proposal : Option Proposal} {decision : Decision}
    (h : interpretInbound text interpret candidates now signal snapshot proposal
      = .ok (.answer decision)) : ∃ reply, signal = .reply reply := by
  cases signal with
  | reply reply => exact ⟨reply, rfl⟩
  | receipt receipt => cases h

namespace Driver

variable {d d' d₁ : Driver}

/-- The driver is called to converge a revision as long as there is one. -/
def Revises (d : Driver) : Prop :=
  ∀ s, d.txn = .revising s → d.pc.ended = true ∨
    ∃ snapshot prior rest resume,
      d.pc = .calling (.converge snapshot s.instruction prior) rest resume

/-- The next step takes the inbound from the queue. -/
def Takes (signal : InboundSignal) (d : Driver) : Prop :=
  ∃ w queue, d.pc = .waiting w ∧ w.readsSnapshot = false ∧ d.inbound = signal :: queue

section turns
variable {text : PyText} {δ : Type} [DecidableEq δ] {digest : TargetState → δ} {act : Act}

theorem endStep_revises (m : Moment) (d : Driver) : (d.endStep m).Revises := by
  intro s hs
  unfold endStep at hs ⊢
  split at hs
  · -- a revision is no resting state
    rename_i hroll
    rw [continueAsNew_txn] at hs
    rw [hs] at hroll
    cases hroll.1
  · rename_i hroll
    rw [if_neg hroll]
    rw [beginStep_txn] at hs
    obtain ⟨txn⟩ := d
    cases hs
    exact .inr ⟨_, _, _, _, rfl⟩

/-- An event leads to a revision where the driver takes an inbound that reopens the transaction. -/
theorem Feeds.revising {m : Moment} {event : LifecycleEvent} {rest : List Effect} {resume : Resume}
    {tr : Transition} {s : Revising} (h : Feeds text digest d act m event rest resume d₁)
    (hfits : d.pc.Fits d.txn) (hd : d.Revises)
    (hadv : advance m.now defaultPolicy d₁.txn event = .ok tr) (hnext : tr.next = .revising s) :
    act = .wake m ∧ d.Takes s.instruction ∧ rest = [] ∧ resume = .nextStep ∧
      tr.effects = [.cancelTimer .archive] := by
  have hmove := advance_move hadv
  rw [hnext] at hmove
  rcases hmove.revising with ⟨hstays, -⟩ | hinbound
  · -- a revision ends with what converge comes to
    rw [h.same.txn_eq] at hstays
    rcases hd s hstays with hended | ⟨snapshot, prior, rest', resume', hpc⟩
    · have hopen := (Feeds.turn h).not_ended h.resumed
      rw [hended] at hopen
      cases hopen
    · cases h with
      | converged m outcome hcalls =>
        have hheld := advance_converged (hstays ▸ hadv) []
        rw [hnext] at hheld
        cases hheld
      | _ => simp_all
  · cases h with
    | @received w signal queue m hpc hw hqueue =>
      cases hinbound
      rw [hpc] at hfits
      have hfits : w.Fits d.txn.state := hfits
      generalize d.txn = txn at hadv hfits
      have hstate := hfits.takes hw
      cases txn with
      | opened o => cases hadv; exact ⟨rfl, ⟨w, queue, hpc, hfits.reads rfl, hqueue⟩, rfl, rfl, rfl⟩
      | lapsed l => cases hadv; exact ⟨rfl, ⟨w, queue, hpc, hfits.reads rfl, hqueue⟩, rfl, rfl, rfl⟩
      | discovered t => cases hadv; cases hnext
      | holdAmazon t => cases hadv; cases hnext
      | _ => rcases hstate with h | h | h | h <;> cases h
    | interpreted m outcome hpc => cases outcome <;> cases hinbound
    | reread m target? o hpc htxn =>
      exact absurd hinbound.symm (archiveOrOverride_ne (by simp) (by simp) _ _ _)
    | _ => cases hinbound

/-- What is left to execute after an activity but converge is not executed in a revision. -/
theorem Revises.elsewhere (hd : d.Revises) {c : Call} {rest : List Effect} {resume : Resume}
    (hpc : d.pc = .calling c rest resume)
    (hc : ∀ snapshot instruction prior, c ≠ .converge snapshot instruction prior) (s : Revising) :
    d.txn ≠ .revising s := by
  intro hs
  rcases hd s hs with hended | ⟨snapshot, prior, rest', resume', hpc'⟩
  · rw [hpc] at hended
    cases hended
  · cases hpc.symm.trans hpc'
    exact hc _ _ _ rfl

/-- **Where a driver revises.** A revision is under way, or over with the run, or it begins with the
instruction taken from the queue. -/
theorem Turn.revising {s : Revising} (h : Turn text digest d act d') (hfits : d.pc.Fits d.txn)
    (hd : d.Revises) (hs : d'.txn = .revising s) :
    (act.resumes = false ∧ d'.pc = d.pc ∧ d.txn = .revising s) ∨ d'.pc.ended = true ∨
      ∃ m, act = .wake m ∧ d.Takes s.instruction ∧ d'.Revises := by
  cases h with
  | accept signal hopen => exact .inl ⟨rfl, rfl, hs⟩
  | notify snapshot hopen => exact .inl ⟨rfl, rfl, hs⟩
  | @fed _ m event rest resume d₁ tr hfeeds hadv =>
    have hnext : tr.next = .revising s := by
      rw [execute_txn] at hs
      exact hs
    obtain ⟨hwake, htakes, rfl, rfl, heffects⟩ := hfeeds.revising hfits hd hadv hnext
    rw [heffects]
    exact .inr (.inr ⟨m, hwake, htakes, endStep_revises m _⟩)
  | raised hfeeds herr => exact .inr (.inl rfl)
  | interpret m hpc htxn hqueue => cases htxn.symm.trans hs
  | reread m hpc htxn => cases htxn.symm.trans hs
  | committed m hpc => exact absurd hs (hd.elsewhere hpc (by simp) s)
  | opened m threadId hpc =>
    rw [execute_txn] at hs
    have hs : d.txn.withThread threadId = .revising s := hs
    cases htxn : d.txn with
    | revising s' => exact absurd htxn (hd.elsewhere hpc (by simp) s')
    | _ => rw [htxn] at hs; cases hs
  | wentOn m hpc hc =>
    rw [execute_txn] at hs
    refine absurd hs (hd.elsewhere hpc ?_ s)
    rintro snapshot instruction prior rfl
    cases hc
  | unrecorded m hpc =>
    rw [execute_txn] at hs
    exact absurd hs (hd.elsewhere hpc (by simp) s)
  | failed m hpc => exact .inr (.inl rfl)

/-- The driver converges a revision after every step. -/
theorem Turn.revises (h : Turn text digest d act d') (hfits : d.pc.Fits d.txn) (hd : d.Revises) :
    d'.Revises := by
  intro s hs
  rcases h.revising hfits hd hs with ⟨-, hpc, hs⟩ | hended | ⟨m, -, -, hd'⟩
  · rw [hpc]
    exact hd s hs
  · exact .inl hended
  · exact hd' s hs

/-- It comes to a converge run by taking the instruction from the queue. -/
theorem Turn.converging (h : Turn text digest d act d') (hfits : d.pc.Fits d.txn)
    (hd : d.Revises) (hact : act.resumes = true) {snapshot : YnabSnapshot}
    {instruction : InboundSignal} {prior : Option Decision} {rest : List Effect} {resume : Resume}
    (hpc' : d'.pc = .calling (.converge snapshot instruction prior) rest resume) :
    ∃ m, act = .wake m ∧ d.Takes instruction := by
  have hfits' := h.fits hfits
  rw [hpc'] at hfits'
  obtain ⟨⟨s, hs, rfl⟩, -⟩ := hfits'
  rcases h.revising hfits hd hs with ⟨hsame, -, -⟩ | hended | ⟨m, hwake, htakes, -⟩
  · rw [hact] at hsame
    cases hsame
  · rw [hpc'] at hended
    cases hended
  · exact ⟨m, hwake, htakes⟩

/-- It comes to the reading of an inbound by taking it from the queue. -/
theorem Turn.interpreting (h : Turn text digest d act d') (hfits : d.pc.Fits d.txn)
    (hact : act.resumes = true) {signal : InboundSignal} {snapshot : YnabSnapshot}
    {proposal : Option Proposal} {rest : List Effect} {resume : Resume}
    (hpc' : d'.pc = .calling (.interpretInbound signal snapshot proposal) rest resume) :
    ∃ m, act = .wake m ∧ d.Takes signal := by
  cases h with
  | accept signal hopen => cases hact
  | notify snapshot hopen => cases hact
  | fed hfeeds hadv => exact absurd hpc' execute_not_interprets
  | raised hfeeds herr => cases hpc'
  | @interpret w s signal queue m hpc htxn hqueue =>
    cases hpc'
    rw [hpc] at hfits
    have hfits : w.Fits d.txn.state := hfits
    rw [htxn] at hfits
    exact ⟨m, rfl, w, queue, hpc, hfits.reads rfl, hqueue⟩
  | reread m hpc htxn => cases hpc'
  | committed m hpc => cases hpc'
  | opened m threadId hpc => exact absurd hpc' execute_not_interprets
  | wentOn m hpc hc => exact absurd hpc' execute_not_interprets
  | unrecorded m hpc => exact absurd hpc' execute_not_interprets
  | failed m hpc => cases hpc'

/-- Where the driver may be, after every step. -/
structure Placed (d : Driver) : Prop where
  fits : d.pc.Fits d.txn
  settles : d.pc.Settles d.txn
  revises : d.Revises

theorem start_placed (ynabId : YnabTransactionId) (inbound : List InboundSignal) :
    Placed { start { ynabId } with inbound } :=
  ⟨⟨rfl, calm_nil, trivial⟩, ⟨trivial, by simp [Settled]⟩, fun s hs => by cases hs⟩

theorem Turn.placed (h : Turn text digest d act d') (hd : d.Placed) : d'.Placed :=
  ⟨h.fits hd.fits, h.settles hd.settles, h.revises hd.fits hd.revises⟩

end turns

end Driver

/-! ## Since a step -/

namespace LiveBeat

/-- The charge is enriched. -/
def Enriches (beat : LiveBeat) : Prop :=
  ∃ inputs, beat.act = .work (.enrich inputs)

/-- The inbound is taken from the queue. -/
def Takes (signal : InboundSignal) (beat : LiveBeat) : Prop :=
  ∃ m, beat.act = .drive (.wake m) ∧ beat.pre.driver.Takes signal

/-- Among the steps is an enrichment, or an inbound is taken: a reply for a commit, the instruction
for a converge run. -/
def Prompted (write : LiveBeat) (beats : List LiveBeat) : Prop :=
  match write.pre.driver.pc with
  | .calling (.converge _ instruction _) _ _ => ∃ beat ∈ beats, beat.Takes instruction
  | _ => ∃ beat ∈ beats, beat.Enriches ∨ ∃ reply, beat.Takes (.reply reply)

end LiveBeat

/-- What has come in since a step: what the driver writes, reads or converges was prompted, and so
was what the attempt came to. -/
structure Since (beats : List LiveBeat) (w : LiveWorld) : Prop where
  placed : w.driver.Placed
  commits : ∀ decision rest resume, w.driver.pc = .calling (.commitToYnab decision) rest resume →
    ∃ beat ∈ beats, beat.Enriches ∨ ∃ reply, beat.Takes (.reply reply)
  interprets : ∀ signal snapshot proposal rest resume,
    w.driver.pc = .calling (.interpretInbound signal snapshot proposal) rest resume →
    ∃ beat ∈ beats, beat.Takes signal
  converges : ∀ snapshot instruction prior rest resume,
    w.driver.pc = .calling (.converge snapshot instruction prior) rest resume →
    ∃ beat ∈ beats, beat.Takes instruction
  enriched : ∀ outcome, w.attempt = .done (.enriched outcome) → ∃ beat ∈ beats, beat.Enriches
  answered : ∀ decision, w.attempt = .done (.interpreted (.answer decision)) →
    ∃ beat ∈ beats, ∃ reply, beat.Takes (.reply reply)

section since
variable {text : PyText} {δ : Type} [DecidableEq δ] {digest : TargetState → δ}
  {beats : List LiveBeat} {w w' : LiveWorld} {d : Driver}

/-- A step that resumes the driver: what it goes on to was brought by what it resumed on. -/
theorem since_drive {act : Driver.Act} (hturn : Driver.Turn text digest w.driver act d)
    (hplaced : w.driver.Placed) (hact : act.resumes = true)
    (hruled : ∀ m decision, act = .returned m (.enriched (.autoApply decision)) →
      ∃ beat ∈ beats, beat.Enriches)
    (hread : ∀ m decision, act = .returned m (.interpreted (.answer decision)) →
      ∃ beat ∈ beats, ∃ reply, beat.Takes (.reply reply))
    (htaken : ∀ m signal, act = .wake m → w.driver.Takes signal →
      ∃ beat ∈ beats, beat.Takes signal) :
    Since beats { w with driver := d, attempt := .idle } := by
  refine ⟨hturn.placed hplaced, ?_, ?_, ?_, ?_, ?_⟩
  · intro decision rest resume hpc
    have hcomes := hturn.comes hplaced.settles hact hpc rfl
    generalize hcommit : Call.commitToYnab decision = c at hcomes
    generalize d.txn.state = state at hcomes
    cases hcomes with
    | auto m s htxn ruled =>
      obtain ⟨beat, hbeat, henriches⟩ := hruled m ruled rfl
      exact ⟨beat, hbeat, .inl henriches⟩
    | ask m s htxn proposal c hc => exact absurd hcommit.symm (hc decision)
    | answer m answered hpc =>
      obtain ⟨beat, hbeat, htakes⟩ := hread m answered rfl
      exact ⟨beat, hbeat, .inr htakes⟩
  · intro signal snapshot proposal rest resume hpc
    obtain ⟨m, hwake, htakes⟩ := hturn.interpreting hplaced.fits hact hpc
    exact htaken m signal hwake htakes
  · intro snapshot instruction prior rest resume hpc
    obtain ⟨m, hwake, htakes⟩ := hturn.converging hplaced.fits hplaced.revises hact hpc
    exact htaken m instruction hwake htakes
  · intro outcome hattempt
    cases hattempt
  · intro decision hattempt
    cases hattempt

/-- What was prompted stays so. -/
theorem Since.rest (hw : Since beats w) (beat : LiveBeat) (hdriver : w'.driver.pc = w.driver.pc)
    (htxn : w'.driver.txn = w.driver.txn)
    (henriched : ∀ outcome, w'.attempt = .done (.enriched outcome) →
      ∃ b ∈ beats ++ [beat], b.Enriches)
    (hanswered : ∀ decision, w'.attempt = .done (.interpreted (.answer decision)) →
      ∃ b ∈ beats ++ [beat], ∃ reply, b.Takes (.reply reply)) :
    Since (beats ++ [beat]) w' := by
  refine ⟨⟨?_, ?_, ?_⟩, ?_, ?_, ?_, henriched, hanswered⟩
  · rw [hdriver, htxn]
    exact hw.placed.fits
  · rw [hdriver, htxn]
    exact hw.placed.settles
  · intro s hs
    rw [hdriver]
    exact hw.placed.revises s (htxn.symm.trans hs)
  · intro decision rest resume hpc
    exact Lib.exists_mem_snoc (hw.commits decision rest resume (hdriver.symm.trans hpc)) beat
  · intro signal snapshot proposal rest resume hpc
    exact Lib.exists_mem_snoc (hw.interprets _ _ _ _ _ (hdriver.symm.trans hpc)) beat
  · intro snapshot instruction prior rest resume hpc
    exact Lib.exists_mem_snoc (hw.converges _ _ _ _ _ (hdriver.symm.trans hpc)) beat

/-- **One step.** What the run goes on to write is prompted by the steps since. -/
theorem Since.turn (hw : Since beats w) {act : LiveAct} (h : LiveWorld.Turn text digest w act w') :
    Since (beats ++ [⟨w, act⟩]) w' := by
  cases h with
  | edited live monthClosed =>
    exact hw.rest _ rfl rfl
      (fun outcome hdone => Lib.exists_mem_snoc (hw.enriched outcome hdone) _)
      fun decision hdone => Lib.exists_mem_snoc (hw.answered decision hdone) _
  | @drove act d hact hturn =>
    cases hresumes : act.resumes with
    | true =>
      refine since_drive hturn hw.placed hresumes ?_ ?_ ?_
      · rintro m decision rfl
        exact absurd rfl (hact m _)
      · rintro m decision rfl
        exact absurd rfl (hact m _)
      · rintro m signal rfl htakes
        exact Lib.exists_mem_last ⟨m, rfl, htakes⟩
    | false =>
      obtain ⟨hpc, hsame⟩ := hturn.same hresumes
      exact hw.rest _ hpc hsame.txn_eq
        (fun outcome hdone => Lib.exists_mem_snoc (hw.enriched outcome hdone) _)
        fun decision hdone => Lib.exists_mem_snoc (hw.answered decision hdone) _
  | @returned result d m hdone hturn =>
    refine since_drive hturn hw.placed rfl ?_ ?_ ?_
    · rintro m' decision hact
      cases hact
      exact Lib.exists_mem_snoc (hw.enriched _ hdone) _
    · rintro m' decision hact
      cases hact
      exact Lib.exists_mem_snoc (hw.answered _ hdone) _
    · rintro m' signal hact
      cases hact
  | @worked work attempt hworked =>
    refine hw.rest _ rfl rfl ?_ ?_
    · intro outcome hdone
      cases hworked with
      | enriched hpc houtcome => exact Lib.exists_mem_last ⟨_, rfl⟩
      | @planned _ _ _ _ _ _ _ _ step hpc hstep => cases step <;> cases hdone
      | _ => cases hdone
    · intro decision hdone
      cases hworked with
      | interpreted hpc houtcome =>
        cases hdone
        obtain ⟨reply, rfl⟩ := interpretInbound_reply houtcome
        obtain ⟨beat, hbeat, htakes⟩ := hw.interprets _ _ _ _ _ hpc
        exact ⟨beat, List.mem_append_left _ hbeat, reply, htakes⟩
      | @planned _ _ _ _ _ _ _ _ step hpc hstep => cases step <;> cases hdone
      | _ => cases hdone
  | wrote hpc hplanned hlive =>
    exact hw.rest _ rfl rfl (fun outcome hdone => by cases hdone)
      fun decision hdone => by cases hdone
  | committed hpc hlive =>
    exact hw.rest _ rfl rfl (fun outcome hdone => by cases hdone)
      fun decision hdone => by cases hdone

/-- A write is prompted by the steps since. -/
theorem Since.prompted (hw : Since beats w) {act : LiveAct}
    (h : LiveWorld.Turn text digest w act w') (hwrites : act.writes = true) :
    LiveBeat.Prompted ⟨w, act⟩ beats := by
  unfold LiveBeat.Prompted
  cases h with
  | wrote hpc hplanned hlive =>
    simp only [hpc]
    exact hw.converges _ _ _ _ _ hpc
  | committed hpc hlive =>
    simp only [hpc]
    exact hw.commits _ _ _ hpc
  | worked hworked => cases hworked <;> cases hwrites
  | _ => cases hwrites

theorem LiveWorld.Turn.placed {act : LiveAct} (h : LiveWorld.Turn text digest w act w')
    (hw : w.driver.Placed) : w'.driver.Placed := by
  cases h with
  | drove hact hturn => exact hturn.placed hw
  | returned m hdone hturn => exact hturn.placed hw
  | _ => exact hw

/-- Nothing is prompted by a wait that times out. -/
theorem since_timeout {m : Moment} (h : LiveWorld.Turn text digest w (.drive (.timeout m)) w')
    (hw : w.driver.Placed) : Since [] w' := by
  cases h with
  | drove hact hturn =>
    refine since_drive hturn hw rfl ?_ ?_ ?_
    · intro m' decision hreturned
      cases hreturned
    · intro m' decision hreturned
      cases hreturned
    · intro m' signal hwake
      cases hwake

/-- **No write by time-outs.** After a wait has timed out YNAB is next written when the charge has
been enriched again, or an inbound has been taken from the queue. -/
theorem prompted_after_timeout {ynabId : YnabTransactionId} {inbound : List InboundSignal}
    {live : Option WireTransaction} {monthClosed : Bool} {before mid after : List LiveBeat}
    {timer write : LiveBeat} {m : Moment}
    (hrun : LiveWorld.Run text digest
      { live, monthClosed, driver := { Driver.start { ynabId } with inbound } } beats w)
    (hbeats : beats = before ++ timer :: (mid ++ write :: after))
    (htimer : timer.act = .drive (.timeout m)) (hwrite : write.act.writes = true) :
    write.Prompted mid := by
  rw [hbeats] at hrun
  obtain ⟨w₀, hbefore, hrun⟩ := hrun.of_append
  obtain ⟨w₁, htimes, hrun⟩ := hrun.cons_inv
  obtain ⟨w₂, hmid, hrun⟩ := hrun.of_append
  obtain ⟨w₃, hwrites, -⟩ := hrun.cons_inv
  have hplaced : w₀.driver.Placed := by
    refine hbefore.invariant (I := fun w => w.driver.Placed) ?_ (Driver.start_placed ynabId inbound)
    rintro w beat w' hw ⟨hstep⟩
    exact (LiveWorld.step_turn hstep).placed hw
  have hsince : Since [] w₁ := by
    obtain ⟨hstep⟩ := htimes
    cases htimer
    exact since_timeout (LiveWorld.step_turn hstep) hplaced
  have hsince : Since mid w₂ := by
    refine hmid.history (P := Since) hsince ?_
    rintro ls w beat w' - hw ⟨hstep⟩
    exact hw.turn (LiveWorld.step_turn hstep)
  obtain ⟨hstep⟩ := hwrites
  exact hsince.prompted (LiveWorld.step_turn hstep) hwrite

/-- **Only on word.** On every run of the machine a decision is committed on the ruling of the gate
or on an answer, and what is told after a commit is told when that decision has been verified; and
on every run beside the live transaction, no wait that times out leads to a write unprompted. -/
theorem writes_only_on_word {policy : LifecyclePolicy} {ynabId : YnabTransactionId}
    {threadId : Option ThreadId} {steps : List Beat} {txn : Transaction}
    {inbound : List InboundSignal} {live : Option WireTransaction} {monthClosed : Bool}
    (hrun : TxnRun policy (born ynabId threadId) steps txn)
    (hlive : LiveWorld.Run text digest
      { live, monthClosed, driver := { Driver.start { ynabId } with inbound } } beats w) :
    (∀ beat ∈ steps, ∀ decision, beat.Commits decision →
      ∃ pre now event, beat = .fed pre now event beat.effects ∧
        (event = .enriched (.autoApply decision) ∨ event = .answerReceived decision)) ∧
    (∀ before timer mid write after m, beats = before ++ timer :: (mid ++ write :: after) →
      timer.act = .drive (.timeout m) → write.act.writes = true → write.Prompted mid) ∧
    ∀ before commit mid tell after decision,
      steps = before ++ commit :: (mid ++ tell :: after) → commit.Commits decision →
      (∀ beat ∈ mid, ∀ d, ¬ beat.Commits d) → (∃ e ∈ tell.effects, e.tells = true) →
      ∃ beat ∈ mid ++ [tell], beat.Verifies decision := by
  refine ⟨?_, ?_, ?_⟩
  · intro beat hbeat decision hcommit
    exact committed_on_word hrun hbeat hcommit
  · intro before timer mid write after m hbeats htimer hwrite
    exact prompted_after_timeout hlive hbeats htimer hwrite
  · intro before commit mid tell after decision hsteps hcommit hlast htell
    exact told_after_match hrun hsteps hcommit hlast htell

end since

/-! ## A charge written twice -/

/-- The events of a charge filed by rule. -/
def marketEvents : List (Datetime × LifecycleEvent) :=
  [(0, .snapshotMaterialized marketSnapshot false),
    (0, .enriched (.autoApply (buildAutoDecision marketRule marketSnapshot 0))),
    (0, .writeVerified .match)]

/-- The archive window passes over the charge, and then its owner asks for another category. -/
def marketRevised : List LiveAct :=
  marketApplied ++ [.drive (.timeout ⟨2592000000000, 0⟩), .work .readBack,
    .returns ⟨2592000000000, 0⟩, .drive (.submitInbound giftsReply),
    .drive (.wake ⟨2592000000001, 0⟩)] ++ giftsWritten

/-- The rule's decision is told when it is verified, and after the archive window it is the reply
that prompts the next write. -/
theorem market_writes_on_word :
    (∃ found commit tell txn, TxnRun defaultPolicy (born "t1" none) [found, commit, tell] txn ∧
      (∃ e ∈ tell.effects, e.tells = true) ∧
      tell.Verifies (buildAutoDecision marketRule marketSnapshot 0)) ∧
    ∃ before timer mid write w, LiveWorld.Run PyText.ascii id marketWorld
        (before ++ timer :: (mid ++ [write])) w ∧
      timer.act = .drive (.timeout ⟨2592000000000, 0⟩) ∧ write.act = .work .write ∧
      ∃ beat ∈ mid, LiveBeat.Takes giftsReply beat := by
  have hexec : ∃ before timer mid write w, Lib.exec (LiveWorld.step PyText.ascii id) marketWorld
      marketRevised = some (before ++ timer :: (mid ++ [write]), w) ∧
      timer.act = .drive (.timeout ⟨2592000000000, 0⟩) ∧ write.act = .work .write ∧
      ∃ snapshot prior rest resume,
        write.pre.driver.pc = .calling (.converge snapshot giftsReply prior) rest resume :=
    ⟨[_, _, _, _, _, _, _, _, _, _, _, _], _, [_, _, _, _, _], _, _, rfl, rfl, rfl, _, _, _, _, rfl⟩
  obtain ⟨before, timer, mid, write, w, hexec, htimer, hwrite, snapshot, prior, rest, resume,
    hpc⟩ := hexec
  have hlive := Lib.exec_run hexec
  have hevents : ∃ found commit tell txn, runEvents defaultPolicy (born "t1" none) marketEvents =
      .ok ([found, commit, tell], txn) ∧
      commit.Commits (buildAutoDecision marketRule marketSnapshot 0) ∧
      ∃ e ∈ tell.effects, e.tells = true :=
    ⟨_, _, _, _, rfl, List.mem_cons_self, _, List.mem_cons_self, rfl⟩
  obtain ⟨found, commit, tell, txn, hevents, hcommit, htell⟩ := hevents
  have hrun := runEvents_run hevents
  obtain ⟨-, hprompted, htold⟩ := writes_only_on_word hrun hlive
  refine ⟨⟨found, commit, tell, txn, hrun, htell, ?_⟩, before, timer, mid, write, w, hlive, htimer,
    hwrite, ?_⟩
  · obtain ⟨beat, hbeat, hverifies⟩ := htold [found] commit [] tell [] _ rfl hcommit (by simp) htell
    cases List.mem_singleton.1 hbeat
    exact hverifies
  · have hwrites : write.act.writes = true := by rw [hwrite]; rfl
    have hprompt := hprompted before timer mid write [] _ rfl htimer hwrites
    unfold LiveBeat.Prompted at hprompt
    rw [hpc] at hprompt
    exact hprompt

end YnabAgent
