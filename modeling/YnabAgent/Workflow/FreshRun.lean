import YnabAgent.Workflow.Decisions
import YnabAgent.Workflow.Guard

/-!
# The run a late inbound starts

An inbound for a transaction whose run has closed starts a fresh one, with the inbound buffered
(`workflow/dispatch_activities.py`). The run begins in `DISCOVERED` and triages the transaction
again: the gate may rule before the inbound is read. `first_write_heard`: every other write of the
run comes after a reading of the inbound, and the first is the one it decides, unless a reading of
it settled on no write.
-/

namespace YnabAgent

/-! ## Readings and writes -/

def ReplyOutcome.decision? : ReplyOutcome → Option Decision
  | .answer decision => some decision
  | .clarify _ => none

/-- The write a plan has come to; none where it is done. -/
def ConvergeStep.decision? : ConvergeStep → Option Decision
  | .done _ => none
  | .write decision => some decision

/-- The decision about to be written on an instruction: planned by converge, or the answer's. -/
def LiveWorld.pending? (w : LiveWorld) : Option Decision :=
  match w.attempt, w.driver.pc with
  | .planned _ decision, .calling (.converge _ _ _) _ _ => some decision
  | _, .calling (.commitToYnab decision) _ _ =>
    if w.driver.autoCommitting then none else some decision
  | _, _ => none

/-- The decision a step writes, other than an auto-apply. -/
def LiveBeat.written? (beat : LiveBeat) : Option Decision :=
  if beat.act.writes then beat.pre.pending? else none

/-- The inbound an act brings. -/
def LiveAct.arrived : LiveAct → List InboundSignal
  | .drive act => act.submitted
  | _ => []

def arrived (beats : List LiveBeat) : List InboundSignal :=
  beats.flatMap fun beat => beat.act.arrived

section readings
variable (text : PyText) {δ : Type} [DecidableEq δ] (digest : TargetState → δ)

/-- The inbound a step reads, with the decision to write it comes to, if it comes to one. -/
def LiveBeat.heard? (beat : LiveBeat) : Option (InboundSignal × Option Decision) :=
  match beat.act, beat.pre.driver.pc with
  | .work (.interpret interpret candidates now),
      .calling (.interpretInbound signal snapshot proposal) _ _ =>
    (interpretInbound text interpret candidates now signal snapshot proposal).toOption.map
      fun outcome => (signal, outcome.decision?)
  | .work (.plan candidates interpretRevision now),
      .calling (.converge snapshot instruction prior) _ _ =>
    (convergePlan text digest snapshot instruction prior
      { candidates, interpretRevision, before := beat.pre.backend, after := beat.pre.backend
        now }).toOption.map fun step => (instruction, step.decision?)
  | _, _ => none

/-- One of the steps reads the inbound, and comes to the decision. -/
def Heard (signal : InboundSignal) (decision? : Option Decision) (beats : List LiveBeat) : Prop :=
  ∃ beat ∈ beats, beat.heard? text digest = some (signal, decision?)

/-- One of the steps writes on an instruction. -/
def Instructed (beats : List LiveBeat) : Prop :=
  ∃ beat ∈ beats, beat.written? ≠ none

end readings

/-! ## What a fresh run keeps -/

/-- The world of a run that a late inbound starts. -/
def LiveWorld.lateStart (ynabId : YnabTransactionId) (signal : InboundSignal)
    (live : Option WireTransaction) (monthClosed : Bool) : LiveWorld :=
  { live, monthClosed, driver := { Driver.start { ynabId } with inbound := [signal] } }

section fresh
variable (text : PyText) {δ : Type} [DecidableEq δ] (digest : TargetState → δ)
  (late : InboundSignal)

/-- What the attempt has come to was heard, and where it wrote was written, in the steps passed. -/
def LiveWorld.Told (beats : List LiveBeat) (w : LiveWorld) : Prop :=
  match w.attempt with
  | .planned _ decision => ∃ snapshot instruction prior rest resume,
      w.driver.pc = .calling (.converge snapshot instruction prior) rest resume ∧
        Heard text digest instruction (some decision) beats
  | .wrote _ _ => ∃ snapshot instruction prior rest resume decision?,
      w.driver.pc = .calling (.converge snapshot instruction prior) rest resume ∧
        Heard text digest instruction decision? beats ∧ Instructed beats
  | .done (.interpreted outcome) => ∃ signal snapshot proposal rest resume,
      w.driver.pc = .calling (.interpretInbound signal snapshot proposal) rest resume ∧
        Heard text digest signal outcome.decision? beats
  | .done (.converged _) => ∃ snapshot instruction prior rest resume decision?,
      w.driver.pc = .calling (.converge snapshot instruction prior) rest resume ∧
        Heard text digest instruction decision? beats ∧ (decision? = none ∨ Instructed beats)
  | .done .done => ∀ decision rest resume,
      w.driver.pc = .calling (.commitToYnab decision) rest resume →
        w.driver.autoCommitting = false → Instructed beats
  | _ => True

/-- How far a run has come with the late inbound. -/
inductive Stage (beats : List LiveBeat) (d : Driver) : Prop
  | unread (hconsumed : d.consumed = [])
      (hpc : ∀ {signal snapshot proposal rest resume},
        d.pc ≠ .calling (.interpretInbound signal snapshot proposal) rest resume)
      (hcommit : ∀ {decision rest resume}, d.pc = .calling (.commitToYnab decision) rest resume →
        d.autoCommitting = true)
  | reading {snapshot : YnabSnapshot} {proposal : Option Proposal} {rest : List Effect}
      {resume : Resume}
      (hpc : d.pc = .calling (.interpretInbound late snapshot proposal) rest resume)
  | deciding {decision : Decision} {rest : List Effect} {resume : Resume}
      (hpc : d.pc = .calling (.commitToYnab decision) rest resume)
      (hauto : d.autoCommitting = false) (hheard : Heard text digest late (some decision) beats)
  /-- A reading of it settled on no write. -/
  | unsettled (hheard : Heard text digest late none beats)
  | written {decision? : Option Decision} (hheard : Heard text digest late decision? beats)
      (hinstructed : Instructed beats)
  | ended (hended : d.pc.ended = true)

/-- What a fresh run keeps. -/
structure Fresh (beats : List LiveBeat) (w : LiveWorld) : Prop where
  fits : w.driver.pc.Fits w.driver.txn
  settles : w.driver.pc.Settles w.driver.txn
  account_eq : w.driver.account = late :: arrived beats
  asked : ∀ {signal snapshot proposal rest resume},
    w.driver.pc = .calling (.interpretInbound signal snapshot proposal) rest resume →
      signal ∈ w.driver.consumed
  told : w.Told text digest beats
  answered : ∀ {decision rest resume},
    w.driver.pc = .calling (.commitToYnab decision) rest resume → w.driver.autoCommitting = false →
      ∃ signal ∈ late :: arrived beats, Heard text digest signal (some decision) beats
  stage : Stage text digest late beats w.driver

variable {text digest late} {beats : List LiveBeat} {beat : LiveBeat} {w w' : LiveWorld}
  {d : Driver}

theorem LiveWorld.Told.planned (h : w.Told text digest beats) {candidates : List CandidateCategory}
    {decision : Decision} (hattempt : w.attempt = .planned candidates decision) :
    ∃ snapshot instruction prior rest resume,
      w.driver.pc = .calling (.converge snapshot instruction prior) rest resume ∧
        Heard text digest instruction (some decision) beats := by
  unfold Told at h
  rw [hattempt] at h
  exact h

theorem LiveWorld.Told.wrote (h : w.Told text digest beats) {candidates : List CandidateCategory}
    {decision : Decision} (hattempt : w.attempt = .wrote candidates decision) :
    ∃ snapshot instruction prior rest resume decision?,
      w.driver.pc = .calling (.converge snapshot instruction prior) rest resume ∧
        Heard text digest instruction decision? beats ∧ Instructed beats := by
  unfold Told at h
  rw [hattempt] at h
  exact h

theorem LiveWorld.Told.interpreted (h : w.Told text digest beats) {outcome : ReplyOutcome}
    (hattempt : w.attempt = .done (.interpreted outcome)) :
    ∃ signal snapshot proposal rest resume,
      w.driver.pc = .calling (.interpretInbound signal snapshot proposal) rest resume ∧
        Heard text digest signal outcome.decision? beats := by
  unfold Told at h
  rw [hattempt] at h
  exact h

theorem LiveWorld.Told.converged (h : w.Told text digest beats) {outcome : ConvergeOutcome}
    (hattempt : w.attempt = .done (.converged outcome)) :
    ∃ snapshot instruction prior rest resume decision?,
      w.driver.pc = .calling (.converge snapshot instruction prior) rest resume ∧
        Heard text digest instruction decision? beats ∧ (decision? = none ∨ Instructed beats) := by
  unfold Told at h
  rw [hattempt] at h
  exact h

theorem LiveWorld.Told.committed (h : w.Told text digest beats)
    (hattempt : w.attempt = .done .done) {decision : Decision} {rest : List Effect}
    {resume : Resume} (hpc : w.driver.pc = .calling (.commitToYnab decision) rest resume)
    (hauto : w.driver.autoCommitting = false) : Instructed beats := by
  unfold Told at h
  rw [hattempt] at h
  exact h decision rest resume hpc hauto

theorem Heard.mono {signal : InboundSignal} {decision? : Option Decision}
    (h : Heard text digest signal decision? beats) :
    Heard text digest signal decision? (beats ++ [beat]) :=
  Lib.exists_mem_snoc h beat

theorem Instructed.mono (h : Instructed beats) : Instructed (beats ++ [beat]) :=
  Lib.exists_mem_snoc h beat

theorem LiveWorld.Told.mono (h : w.Told text digest beats) :
    w.Told text digest (beats ++ [beat]) := by
  unfold Told at h ⊢
  split
  · rename_i hattempt
    rw [hattempt] at h
    obtain ⟨snapshot, instruction, prior, rest, resume, hpc, hheard⟩ := h
    exact ⟨snapshot, instruction, prior, rest, resume, hpc, hheard.mono⟩
  · rename_i hattempt
    rw [hattempt] at h
    obtain ⟨snapshot, instruction, prior, rest, resume, decision?, hpc, hheard, hwritten⟩ := h
    exact ⟨snapshot, instruction, prior, rest, resume, decision?, hpc, hheard.mono, hwritten.mono⟩
  · rename_i hattempt
    rw [hattempt] at h
    obtain ⟨signal, snapshot, proposal, rest, resume, hpc, hheard⟩ := h
    exact ⟨signal, snapshot, proposal, rest, resume, hpc, hheard.mono⟩
  · rename_i hattempt
    rw [hattempt] at h
    obtain ⟨snapshot, instruction, prior, rest, resume, decision?, hpc, hheard, hwritten⟩ := h
    exact ⟨snapshot, instruction, prior, rest, resume, decision?, hpc, hheard.mono,
      hwritten.imp_right Instructed.mono⟩
  · rename_i hattempt
    rw [hattempt] at h
    exact fun decision rest resume hpc hauto => (h decision rest resume hpc hauto).mono
  · trivial

theorem Stage.mono (h : Stage text digest late beats d) :
    Stage text digest late (beats ++ [beat]) d := by
  cases h with
  | unread hconsumed hpc hcommit => exact .unread hconsumed hpc hcommit
  | reading hpc => exact .reading hpc
  | deciding hpc hauto hheard => exact .deciding hpc hauto hheard.mono
  | unsettled hheard => exact .unsettled hheard.mono
  | written hheard hinstructed => exact .written hheard.mono hinstructed.mono
  | ended hended => exact .ended hended

theorem Heard.last {signal : InboundSignal} {decision? : Option Decision}
    (h : beat.heard? text digest = some (signal, decision?)) :
    Heard text digest signal decision? (beats ++ [beat]) :=
  Lib.exists_mem_last h

/-- An attempt that goes on tells what it just heard. -/
theorem LiveWorld.Worked.told {work : Work} {attempt : Attempt}
    (h : LiveWorld.Worked text digest w work attempt) (hw : w.Told text digest beats) :
    LiveWorld.Told text digest (beats ++ [⟨w, .work work⟩]) { w with attempt } := by
  cases h with
  | @interpreted interpret candidates now signal snapshot proposal rest resume outcome hpc
      houtcome =>
    refine ⟨signal, snapshot, proposal, rest, resume, hpc, .last ?_⟩
    simp only [LiveBeat.heard?, hpc, houtcome, Except.toOption, Option.map_some]
  | @planned candidates interpretRevision now snapshot instruction prior rest resume step hpc
      hstep =>
    have hheard : Heard text digest instruction step.decision?
        (beats ++ [⟨w, .work (.plan candidates interpretRevision now)⟩]) := by
      refine .last ?_
      simp only [LiveBeat.heard?, hpc, hstep, Except.toOption, Option.map_some]
    cases step with
    | done outcome =>
      exact ⟨snapshot, instruction, prior, rest, resume, none, hpc, hheard, .inl rfl⟩
    | write decision => exact ⟨snapshot, instruction, prior, rest, resume, hpc, hheard⟩
  | verified hpc hwrote hread =>
    obtain ⟨snapshot, instruction, prior, rest, resume, decision?, hpc, hheard, hwritten⟩ :=
      hw.wrote hwrote
    exact ⟨snapshot, instruction, prior, rest, resume, decision?, hpc, hheard.mono,
      .inr hwritten.mono⟩
  | sent hpc hmail hcomposes =>
    intro decision rest resume hpc'
    rw [hpc] at hpc'
    cases hpc'
    cases hmail
  | settled hpc hc hmail =>
    intro decision rest resume hpc'
    rw [hpc] at hpc'
    cases hpc'
    cases hc
  | _ => trivial

/-- The first instruction of a fresh run is the late inbound. -/
theorem Fresh.instruction_eq (hw : Fresh text digest late beats w)
    (hconsumed : w.driver.consumed = []) {snapshot : YnabSnapshot} {instruction : InboundSignal}
    {prior : Option Decision} {rest : List Effect} {resume : Resume}
    (hpc : w.driver.pc = .calling (.converge snapshot instruction prior) rest resume) :
    instruction = late := by
  have hfits := hw.fits
  rw [hpc] at hfits
  obtain ⟨s, htxn, rfl⟩ := hfits.1
  have haccount := hw.account_eq
  unfold Driver.account at haccount
  rw [hconsumed, htxn] at haccount
  exact (List.cons.inj haccount).1

section turn
variable {act : Driver.Act}

/-- While it is unread, the late inbound is what the run takes to read. -/
theorem Fresh.unread_turn (hw : Fresh text digest late beats w)
    (h : Driver.Turn text digest w.driver act d) (hact : act.resumes = true)
    (hdone : ∀ m result, act = .returned m result → w.attempt = .done result)
    (hconsumed : w.driver.consumed = [])
    (hpc : ∀ {signal snapshot proposal rest resume},
      w.driver.pc ≠ .calling (.interpretInbound signal snapshot proposal) rest resume) :
    Stage text digest late beats d := by
  cases h.taken hw.fits with
  | nothing hconsumed' hnot =>
    refine .unread (hconsumed'.trans hconsumed) ?_ ?_
    · intro signal snapshot proposal rest resume hreads
      rw [hnot hreads] at hact
      cases hact
    · -- a commit that no reading led to is the gate's
      intro decision rest resume hcommits
      have hcomes := h.comes hw.settles hact hcommits rfl
      generalize hstate : d.txn.state = state at hcomes
      cases hcomes with
      | auto m s htxn decision =>
        exact Driver.autoCommitting_iff.2 ⟨⟨decision, rest, resume, hcommits⟩, hstate⟩
      | ask m s htxn proposal c hc => exact absurd rfl (hc decision)
      | answer m decision hreads => exact absurd hreads hpc
  | @interpret _ s signal queue m htxn hqueue hconsumed' hreads =>
    -- the head of the queue is the late inbound
    have haccount := hw.account_eq
    unfold Driver.account at haccount
    rw [hconsumed, htxn, hqueue] at haccount
    obtain rfl : signal = late := (List.cons.inj haccount).1
    exact .reading hreads
  | converged m outcome hcalls hconsumed' hnot =>
    obtain ⟨snapshot, instruction, prior, rest, resume, decision?, hpc', hheard, hwritten⟩ :=
      hw.told.converged (hdone m _ rfl)
    obtain rfl := hw.instruction_eq hconsumed hpc'
    rcases hwritten with rfl | hwritten
    · exact .unsettled hheard
    · exact .written hheard hwritten

theorem Fresh.reading_turn (hw : Fresh text digest late beats w)
    (h : Driver.Turn text digest w.driver act d) (hact : act.resumes = true)
    (hdone : ∀ m result, act = .returned m result → w.attempt = .done result)
    {snapshot : YnabSnapshot} {proposal : Option Proposal} {rest : List Effect} {resume : Resume}
    (hpc : w.driver.pc = .calling (.interpretInbound late snapshot proposal) rest resume) :
    Stage text digest late beats d := by
  rcases h.of_interpret hact hw.settles hpc with hended | ⟨m, outcome, rfl, hanswer⟩
  · exact .ended hended
  · obtain ⟨signal, snapshot', proposal', rest', resume', hpc', hheard⟩ :=
      hw.told.interpreted (hdone m _ rfl)
    cases hpc.symm.trans hpc'
    cases outcome with
    | answer decision =>
      obtain ⟨hauto, rest', resume', hcommits⟩ := hanswer decision rfl
      exact .deciding hcommits hauto hheard
    | clarify question => exact .unsettled hheard

theorem Fresh.deciding_turn (hw : Fresh text digest late beats w)
    (h : Driver.Turn text digest w.driver act d) (hact : act.resumes = true)
    (hdone : ∀ m result, act = .returned m result → w.attempt = .done result)
    {decision : Decision} {rest : List Effect} {resume : Resume}
    (hpc : w.driver.pc = .calling (.commitToYnab decision) rest resume)
    (hauto : w.driver.autoCommitting = false)
    (hheard : Heard text digest late (some decision) beats) : Stage text digest late beats d := by
  rcases h.of_commit hact hpc with hended | ⟨m, rfl⟩
  · exact .ended hended
  · exact .written hheard (hw.told.committed (hdone m _ rfl) hpc hauto)

/-- A signal accepted leaves the run where it is with the late inbound. -/
theorem Stage.same (hstage : Stage text digest late beats w.driver)
    (h : Driver.Turn text digest w.driver act d) (hact : act.resumes = false)
    (hfits : w.driver.pc.Fits w.driver.txn) : Stage text digest late beats d := by
  obtain ⟨hpc, hsame⟩ := h.same hact
  have hauto := h.autoCommitting_eq hact
  cases hstage with
  | unread hconsumed hpc' hcommit =>
    have hconsumed' : d.consumed = w.driver.consumed := by
      cases h.taken hfits with
      | nothing hconsumed' hnot => exact hconsumed'
      | interpret m htxn hqueue hconsumed' hreads => cases hact
      | converged m outcome hcalls hconsumed' hnot => cases hact
    refine .unread (hconsumed'.trans hconsumed) (by rw [hpc]; exact hpc') ?_
    intro decision rest resume hcommits
    rw [hauto]
    exact hcommit (hpc.symm.trans hcommits)
  | reading hreads => exact .reading (hpc.trans hreads)
  | deciding hcommits hauto' hheard =>
    exact .deciding (hpc.trans hcommits) (hauto.trans hauto') hheard
  | unsettled hheard => exact .unsettled hheard
  | written hheard hinstructed => exact .written hheard hinstructed
  | ended hended => exact .ended (by rw [hpc]; exact hended)

/-- Going on with the driver, a fresh run comes further with the late inbound. -/
theorem Fresh.stage_turn (hw : Fresh text digest late beats w)
    (h : Driver.Turn text digest w.driver act d)
    (hdone : ∀ m result, act = .returned m result → w.attempt = .done result) :
    Stage text digest late beats d := by
  cases hact : act.resumes with
  | false => exact hw.stage.same h hact hw.fits
  | true =>
    cases hw.stage with
    | unread hconsumed hpc hcommit => exact hw.unread_turn h hact hdone hconsumed hpc
    | reading hpc => exact hw.reading_turn h hact hdone hpc
    | deciding hpc hauto hheard => exact hw.deciding_turn h hact hdone hpc hauto hheard
    | unsettled hheard => exact .unsettled hheard
    | written hheard hinstructed => exact .written hheard hinstructed
    | ended hended =>
      rw [h.not_ended hact] at hended
      cases hended

/-- What is being read is consumed. -/
theorem Fresh.asked_turn (hw : Fresh text digest late beats w)
    (h : Driver.Turn text digest w.driver act d) {signal : InboundSignal} {snapshot : YnabSnapshot}
    {proposal : Option Proposal} {rest : List Effect} {resume : Resume}
    (hpc : d.pc = .calling (.interpretInbound signal snapshot proposal) rest resume) :
    signal ∈ d.consumed := by
  cases h.taken hw.fits with
  | nothing hconsumed hnot =>
    rw [(h.same (hnot hpc)).1] at hpc
    rw [hconsumed]
    exact hw.asked hpc
  | interpret m htxn hqueue hconsumed hreads =>
    cases hreads.symm.trans hpc
    rw [hconsumed]
    simp
  | converged m outcome hcalls hconsumed hnot => exact absurd hpc hnot

/-- What is about to be written for an answer, an inbound of the run decided. -/
theorem Fresh.answered_turn (hw : Fresh text digest late beats w)
    (h : Driver.Turn text digest w.driver act d)
    (hdone : ∀ m result, act = .returned m result → w.attempt = .done result)
    {decision : Decision} {rest : List Effect} {resume : Resume}
    (hpc : d.pc = .calling (.commitToYnab decision) rest resume)
    (hauto : d.autoCommitting = false) :
    ∃ signal ∈ late :: arrived beats, Heard text digest signal (some decision) beats := by
  cases hact : act.resumes with
  | false =>
    rw [(h.same hact).1] at hpc
    rw [h.autoCommitting_eq hact] at hauto
    exact hw.answered hpc hauto
  | true =>
    have hcomes := h.comes hw.settles hact hpc rfl
    generalize hstate : d.txn.state = state at hcomes
    cases hcomes with
    | auto m s htxn decision =>
      rw [Driver.autoCommitting_iff.2 ⟨⟨decision, rest, resume, hpc⟩, hstate⟩] at hauto
      cases hauto
    | ask m s htxn proposal c hc => exact absurd rfl (hc decision)
    | answer m decision hreads =>
      obtain ⟨signal, snapshot, proposal, rest', resume', hpc', hheard⟩ :=
        hw.told.interpreted (hdone m _ rfl)
      refine ⟨signal, ?_, hheard⟩
      rw [← hw.account_eq]
      exact List.mem_append_left _ (hw.asked hpc')

end turn

theorem arrived_append (beats : List LiveBeat) (beat : LiveBeat) :
    arrived (beats ++ [beat]) = arrived beats ++ beat.act.arrived := by
  simp [arrived]

/-- What a fresh run keeps holds after its driver goes on. -/
theorem Fresh.drive (hw : Fresh text digest late beats w) {act : Driver.Act}
    (h : Driver.Turn text digest w.driver act d)
    (hdone : ∀ m result, act = .returned m result → w.attempt = .done result)
    (hbeat : beat.act.arrived = act.submitted) (hw' : w'.driver = d)
    (htold : w'.Told text digest (beats ++ [beat])) :
    Fresh text digest late (beats ++ [beat]) w' := by
  subst hw'
  refine ⟨h.fits hw.fits, h.settles hw.settles, ?_, hw.asked_turn h, htold, ?_,
    (hw.stage_turn h hdone).mono⟩
  · rw [h.account hw.fits, hw.account_eq, arrived_append, hbeat]
    rfl
  · intro decision rest resume hpc hauto
    obtain ⟨signal, hsignal, hheard⟩ := hw.answered_turn h hdone hpc hauto
    refine ⟨signal, ?_, hheard.mono⟩
    rw [arrived_append, ← List.cons_append]
    exact List.mem_append_left _ hsignal

/-- What a fresh run keeps holds after a step that leaves the driver alone. -/
theorem Fresh.rest (hw : Fresh text digest late beats w) (hbeat : beat.act.arrived = [])
    (hw' : w'.driver = w.driver) (htold : w'.Told text digest (beats ++ [beat]))
    (hstage : Stage text digest late (beats ++ [beat]) w.driver) :
    Fresh text digest late (beats ++ [beat]) w' := by
  have harrived : arrived (beats ++ [beat]) = arrived beats := by
    rw [arrived_append, hbeat, List.append_nil]
  refine ⟨?_, ?_, ?_, ?_, htold, ?_, ?_⟩
  · rw [hw']; exact hw.fits
  · rw [hw']; exact hw.settles
  · rw [hw', harrived]; exact hw.account_eq
  · rw [hw']; exact hw.asked
  · rw [hw', harrived]
    intro decision rest resume hpc hauto
    obtain ⟨signal, hsignal, hheard⟩ := hw.answered hpc hauto
    exact ⟨signal, hsignal, hheard.mono⟩
  · rw [hw']; exact hstage

/-- A converge write comes after a reading of the late inbound. -/
theorem Fresh.wrote_stage (hw : Fresh text digest late beats w)
    {candidates : List CandidateCategory} {decision : Decision}
    (hplanned : w.attempt = .planned candidates decision)
    (hinstructed : Instructed (beats ++ [beat])) :
    Stage text digest late (beats ++ [beat]) w.driver := by
  obtain ⟨snapshot, instruction, prior, rest, resume, hpc, hheard⟩ := hw.told.planned hplanned
  cases hw.stage with
  | unread hconsumed hnot hcommit =>
    obtain rfl := hw.instruction_eq hconsumed hpc
    exact .written hheard.mono hinstructed
  | reading hreads => cases hpc.symm.trans hreads
  | deciding hcommits hauto hheard' => cases hpc.symm.trans hcommits
  | unsettled hheard' => exact .unsettled hheard'.mono
  | written hheard' hinstructed' => exact .written hheard'.mono hinstructed
  | ended hended => rw [hpc] at hended; cases hended

/-- One step of a fresh run. -/
theorem Fresh.turn {act : LiveAct} (hw : Fresh text digest late beats w)
    (h : LiveWorld.Turn text digest w act w') :
    Fresh text digest late (beats ++ [⟨w, act⟩]) w' := by
  cases h with
  | edited live monthClosed => exact hw.rest rfl rfl hw.told.mono hw.stage.mono
  | @drove act d hact hturn =>
    refine hw.drive hturn (fun m result heq => absurd heq (hact m result)) rfl rfl ?_
    cases hresumes : act.resumes with
    | true => trivial
    | false =>
      have htold : w.Told text digest (beats ++ [⟨w, .drive act⟩]) := hw.told.mono
      unfold LiveWorld.Told at htold ⊢
      simp only [Bool.false_eq_true, if_false]
      rw [(hturn.same hresumes).1, hturn.autoCommitting_eq hresumes]
      exact htold
  | @returned result d m hdone hturn =>
    refine hw.drive hturn (fun m' result' heq => ?_) rfl rfl trivial
    cases heq
    exact hdone
  | worked hworked => exact hw.rest rfl rfl (hworked.told hw.told) hw.stage.mono
  | @wrote candidates decision wire snapshot instruction prior rest resume hpc hplanned hlive =>
    have hinstructed : Instructed (beats ++ [⟨w, .work .write⟩]) :=
      ⟨⟨w, .work .write⟩, by simp, by
        simp [LiveBeat.written?, LiveAct.writes, LiveWorld.pending?, hplanned, hpc]⟩
    refine hw.rest rfl rfl ?_ (hw.wrote_stage hplanned hinstructed)
    obtain ⟨snapshot, instruction, prior, rest, resume, hpc, hheard⟩ := hw.told.planned hplanned
    exact ⟨snapshot, instruction, prior, rest, resume, some decision, hpc, hheard.mono, hinstructed⟩
  | @committed decision wire rest resume hpc hlive =>
    have hinstructed : w.driver.autoCommitting = false →
        Instructed (beats ++ [⟨w, .work .commit⟩]) := fun hauto =>
      ⟨⟨w, .work .commit⟩, by simp, by
        simp [LiveBeat.written?, LiveAct.writes, LiveWorld.pending?, hpc, hauto]⟩
    refine hw.rest rfl rfl (fun _ _ _ _ hauto => hinstructed hauto) ?_
    cases hw.stage with
    | deciding hcommits hauto hheard => exact .written hheard.mono (hinstructed hauto)
    | unread hconsumed hnot hcommit => exact .unread hconsumed hnot hcommit
    | reading hreads => exact .reading hreads
    | unsettled hheard => exact .unsettled hheard.mono
    | written hheard hwritten => exact .written hheard.mono hwritten.mono
    | ended hended => exact .ended hended

/-- What is about to be written an inbound of the run decided. -/
theorem Fresh.pending_heard (hw : Fresh text digest late beats w) {decision : Decision}
    (hpending : w.pending? = some decision) :
    ∃ signal ∈ late :: arrived beats, Heard text digest signal (some decision) beats := by
  unfold LiveWorld.pending? at hpending
  split at hpending
  · rename_i hplanned hpc
    cases hpending
    obtain ⟨snapshot, instruction, prior, rest, resume, hpc, hheard⟩ := hw.told.planned hplanned
    refine ⟨instruction, ?_, hheard⟩
    have hfits := hw.fits
    rw [hpc] at hfits
    obtain ⟨s, htxn, rfl⟩ := hfits.1
    rw [← hw.account_eq]
    unfold Driver.account
    rw [htxn]
    simp [Transaction.inHand]
  · rename_i hpc
    split at hpending
    · cases hpending
    · rename_i hauto
      cases hpending
      exact hw.answered hpc (by simpa using hauto)
  · cases hpending

/-- What is about to be written, while nothing was, the late inbound decided, unless a reading of it
settled on no write. -/
theorem Fresh.pending_late (hw : Fresh text digest late beats w) {decision : Decision}
    (hpending : w.pending? = some decision) :
    Heard text digest late (some decision) beats ∨ Heard text digest late none beats ∨
      (∃ decision?, Heard text digest late decision? beats) ∧ Instructed beats := by
  cases hw.stage with
  | unread hconsumed hpc hcommit =>
    left
    unfold LiveWorld.pending? at hpending
    split at hpending
    · rename_i hplanned hcalls
      cases hpending
      obtain ⟨snapshot, instruction, prior, rest, resume, hcalls, hheard⟩ :=
        hw.told.planned hplanned
      obtain rfl := hw.instruction_eq hconsumed hcalls
      exact hheard
    · rename_i hcalls
      rw [if_pos (hcommit hcalls)] at hpending
      cases hpending
    · cases hpending
  | reading hpc => simp [LiveWorld.pending?, hpc] at hpending
  | deciding hpc hauto hheard =>
    left
    simp only [LiveWorld.pending?, hpc, hauto, Bool.false_eq_true, if_false,
      Option.some.injEq] at hpending
    rw [← hpending]
    exact hheard
  | unsettled hheard => exact .inr (.inl hheard)
  | written hheard hinstructed => exact .inr (.inr ⟨⟨_, hheard⟩, hinstructed⟩)
  | ended hended =>
    exfalso
    unfold LiveWorld.pending? at hpending
    split at hpending
    · rename_i hpc; rw [hpc] at hended; cases hended
    · rename_i hpc; rw [hpc] at hended; cases hended
    · cases hpending

theorem Fresh.start (ynabId : YnabTransactionId) (live : Option WireTransaction)
    (monthClosed : Bool) : Fresh text digest late [] (.lateStart ynabId late live monthClosed) := by
  refine ⟨⟨rfl, calm_nil, trivial⟩, ⟨trivial, by simp [Settled]⟩, rfl, ?_, trivial, ?_, ?_⟩
  · intro _ _ _ _ _ hpc; cases hpc
  · intro _ _ _ hpc; cases hpc
  · refine .unread rfl ?_ ?_
    · intro _ _ _ _ _ hpc; cases hpc
    · intro _ _ _ hpc; cases hpc

/-- **The late inbound.** Every write of the run it starts, but for an auto-apply, comes after it
was read. The first of them writes what a reading of it decided; or a reading of it settled on no
write, and the decision is that of an inbound that came after it. -/
theorem first_write_heard {ynabId : YnabTransactionId} {live : Option WireTransaction}
    {monthClosed : Bool}
    (hrun : LiveWorld.Run text digest (.lateStart ynabId late live monthClosed) beats w)
    {before after : List LiveBeat} (hbeats : beats = before ++ beat :: after) {decision : Decision}
    (hwritten : beat.written? = some decision) :
    (∃ decision?, Heard text digest late decision? before) ∧
      (¬ Instructed before → Heard text digest late (some decision) before ∨
        Heard text digest late none before ∧
          ∃ signal ∈ arrived before, Heard text digest signal (some decision) before) := by
  have hreached := hrun.each (I := Fresh text digest late) (C := fun _ => True) (fun _ _ => trivial)
    (.start ynabId live monthClosed)
    (fun hw _ hstep => by cases hstep with | step hs => exact hw.turn (LiveWorld.step_turn hs))
      hbeats
  obtain ⟨w, w', hw, hstep⟩ := hreached
  cases hstep
  have hpending : w.pending? = some decision := by
    unfold LiveBeat.written? at hwritten
    split at hwritten
    · exact hwritten
    · cases hwritten
  obtain ⟨signal, hsignal, hdecided⟩ := hw.pending_heard hpending
  rcases hw.pending_late hpending with hheard | hheard | ⟨hheard, hinstructed⟩
  · exact ⟨⟨_, hheard⟩, fun _ => .inl hheard⟩
  · refine ⟨⟨_, hheard⟩, fun _ => ?_⟩
    rcases List.mem_cons.1 hsignal with rfl | hsignal
    · exact .inl hdecided
    · exact .inr ⟨hheard, signal, hsignal, hdecided⟩
  · exact ⟨hheard, fun hnot => absurd hinstructed hnot⟩

end fresh

/-! ## A reply to a charge with a rule -/

/-- The fresh run of a reply that asks for gifts. -/
def giftsLate : LiveWorld :=
  .lateStart "t1" giftsReply (some (marketWire (some "groceries") none)) false

/-- The charge is proposed again, and the reply is read so. -/
def giftsRead (interpretation : Interpretation) : List LiveAct :=
  marketFetched ++ marketEnriched [] ++
    [.work (.send "th2"), .returns ⟨0, 0⟩, .drive (.wake ⟨1, 0⟩),
      .work (.interpret (fun _ => interpretation) marketCandidates 1), .returns ⟨1, 0⟩]

/-- The owner is asked back, and answers groceries. -/
def groceriesAnswered : List LiveAct :=
  [.work (.send "th2"), .returns ⟨1, 0⟩,
    .drive (.submitInbound (.reply { threadId := "th2", messageId := "m2", fromAddress := "owner",
                                     text := "groceries" })), .drive (.wake ⟨2, 0⟩),
    .work (.interpret (fun _ => { intent := .recategorize, categoryId := some "groceries" })
      marketCandidates 2), .returns ⟨2, 0⟩]

/-- A reading of the reply comes to a write. -/
def giftsDecided (beat : LiveBeat) : Bool :=
  match LiveBeat.heard? PyText.ascii (id : TargetState → TargetState) beat with
  | some (signal, some _) => decide (signal = giftsReply)
  | _ => false

/-- The reply is read and written. -/
theorem gifts_heard :
    ∃ before pre w, LiveWorld.Run PyText.ascii id giftsLate (before ++ [⟨pre, .work .commit⟩]) w ∧
      (∃ decision?, Heard PyText.ascii id giftsReply decision? before) ∧
      (¬ Instructed before →
        Heard PyText.ascii id giftsReply (some (humanDecision "gifts" 1 none)) before ∨
        Heard PyText.ascii id giftsReply none before ∧ ∃ signal ∈ arrived before,
          Heard PyText.ascii id signal (some (humanDecision "gifts" 1 none)) before) := by
  have hexec : ∃ before pre w, Lib.exec (LiveWorld.step PyText.ascii id) giftsLate
      (giftsRead { intent := .recategorize, categoryId := some "gifts" } ++ [.work .commit]) =
        some (before ++ [⟨pre, .work .commit⟩], w) ∧
      LiveBeat.written? ⟨pre, .work .commit⟩ = some (humanDecision "gifts" 1 none) :=
    ⟨[_, _, _, _, _, _, _, _, _], _, _, rfl, rfl⟩
  obtain ⟨before, pre, w, hexec, hwritten⟩ := hexec
  have hrun := Lib.exec_run hexec
  exact ⟨before, pre, w, hrun, first_write_heard hrun rfl hwritten⟩

/-- With a rule the fresh run writes before the reply is read; and where the reply is not
understood, the first write is another reply's. -/
theorem gifts_overtaken :
    (∃ before pre w, LiveWorld.Run PyText.ascii id giftsLate (before ++ [⟨pre, .work .commit⟩]) w ∧
      ∀ beat ∈ before, LiveBeat.heard? PyText.ascii id beat = none) ∧
    ∃ before pre w, LiveWorld.Run PyText.ascii id giftsLate (before ++ [⟨pre, .work .commit⟩]) w ∧
      (∀ beat ∈ before, beat.act.writes = false) ∧
      ∀ beat ∈ before, ∀ decision,
        LiveBeat.heard? PyText.ascii id beat ≠ some (giftsReply, some decision) := by
  constructor
  · have hexec : ∃ before pre w, Lib.exec (LiveWorld.step PyText.ascii id) giftsLate
        (marketRuled ++ [.work .commit]) = some (before ++ [⟨pre, .work .commit⟩], w) ∧
        (before.all fun beat => (LiveBeat.heard? PyText.ascii id beat).isNone) = true :=
      ⟨[_, _, _, _], _, _, rfl, rfl⟩
    obtain ⟨before, pre, w, hexec, hheard⟩ := hexec
    refine ⟨before, pre, w, Lib.exec_run hexec, fun beat hbeat => ?_⟩
    simpa using List.all_eq_true.1 hheard beat hbeat
  · have hexec : ∃ before pre w, Lib.exec (LiveWorld.step PyText.ascii id) giftsLate
        (giftsRead { intent := .clarify } ++ groceriesAnswered ++ [.work .commit]) =
          some (before ++ [⟨pre, .work .commit⟩], w) ∧
        (before.all fun beat => !beat.act.writes) = true ∧
        (before.all fun beat => !giftsDecided beat) = true :=
      ⟨[_, _, _, _, _, _, _, _, _, _, _, _, _, _, _], _, _, rfl, rfl, rfl⟩
    obtain ⟨before, pre, w, hexec, hwrites, hheard⟩ := hexec
    refine ⟨before, pre, w, Lib.exec_run hexec, fun beat hbeat => ?_,
      fun beat hbeat decision h => ?_⟩
    · simpa using List.all_eq_true.1 hwrites beat hbeat
    · have hother := List.all_eq_true.1 hheard beat hbeat
      unfold giftsDecided at hother
      rw [h] at hother
      simp at hother

end YnabAgent
