import YnabAgent.Workflow.Calls
import YnabAgent.Ynab.Patch

/-!
# A run beside the live transaction

The owner edits the transaction in YNAB, and its month closes, between any two steps of its workflow
(`workflow/txn_workflow.py`). An activity is attempted any number of times before it returns or
fails (`workflow/activities.py`): an attempt reads the live transaction, or writes it, and what it
came to returns later. A converge attempt plans, writes, and verifies in steps of their own.
-/

namespace YnabAgent

/-! ## The world -/

/-- How far the activity the driver awaits has come. -/
inductive Attempt
  | idle
  /-- Converge is about to write. -/
  | planned (candidates : List CandidateCategory) (decision : Decision)
  /-- Converge has written. -/
  | wrote (candidates : List CandidateCategory) (decision : Decision)
  | done (result : ActivityResult)

/-- The transaction as YNAB has it, whether its month is closed, and its workflow. -/
structure LiveWorld where
  live : Option WireTransaction
  monthClosed : Bool := false
  driver : Driver
  attempt : Attempt := .idle

/-- What an attempt does next, with what it reads besides the live transaction. -/
inductive Work
  | fetch
  | enrich (inputs : EnrichInputs)
  | interpret (interpret : InterpretRequest → Interpretation) (candidates : List CandidateCategory)
      (now : Datetime)
  | plan (candidates : List CandidateCategory)
      (interpretRevision : RevisionRequest → RevisionTarget) (now : Datetime)
  | write
  | verify
  | commit
  | readBack
  | send (threadId : ThreadId)
  /-- The activities that neither read nor write the transaction, nor mail. -/
  | settle

inductive LiveAct
  | edit (live : Option WireTransaction) (monthClosed : Bool)
  /-- A step of the driver other than the return of an activity. -/
  | drive (act : Driver.Act)
  | work (work : Work)
  /-- The activity returns what it came to. -/
  | returns (m : Moment)

/-- Whether an act writes the transaction. -/
def LiveAct.writes : LiveAct → Bool
  | .work .write | .work .commit => true
  | _ => false

/-- Where a plan leaves the attempt. -/
def Attempt.ofStep (candidates : List CandidateCategory) : ConvergeStep → Attempt
  | .done outcome => .done (.converged outcome)
  | .write decision => .planned candidates decision

namespace LiveWorld

/-- The client's reads of the live transaction. -/
def backend (w : LiveWorld) : YnabBackend :=
  { getTransaction := fun _ => w.live, listTransactions := [] }

/-- The live transaction is reconciled, or its month is closed. -/
def blocked (w : LiveWorld) : Bool :=
  w.monthClosed || w.live.any fun wire => wire.cleared = "reconciled"

def approved (w : LiveWorld) : Bool :=
  w.live.any fun wire => wire.approved

/-- A message is composed from the live transaction, and fails without one. -/
def composes (text : PyText) (w : LiveWorld) : Bool :=
  match w.backend.snapshot text w.driver.ynabId with
  | .ok (some _) => true
  | _ => false

/-- The patch of the decision, where the transaction is there. -/
def patch (w : LiveWorld) (decision : Decision) (attempt : Attempt) : Option LiveWorld :=
  w.live.map fun wire => { w with live := some (wire.patched (toPatch decision)), attempt }

section steps
variable (text : PyText) {δ : Type} [DecidableEq δ] (digest : TargetState → δ)

/-- The attempt goes on; `none` where the driver awaits another activity, or where the attempt
fails. -/
def attempted (w : LiveWorld) (work : Work) : Option LiveWorld :=
  match work, w.driver.pc with
  | .fetch, .calling .fetchSnapshot _ _ =>
    (w.backend.snapshot text w.driver.ynabId).toOption.map fun snapshot? =>
      { w with attempt := .done (.snapshot snapshot?) }
  | .enrich inputs, .calling (.enrich snapshot) _ _ =>
    (decideEnrichment text inputs.propose snapshot inputs.candidates inputs.rules inputs.counters
      inputs.now).toOption.map fun outcome => { w with attempt := .done (.enriched outcome) }
  | .interpret interpret candidates now,
      .calling (.interpretInbound signal snapshot proposal) _ _ =>
    (interpretInbound text interpret candidates now signal snapshot proposal).toOption.map
      fun outcome => { w with attempt := .done (.interpreted outcome) }
  | .plan candidates interpretRevision now, .calling (.converge snapshot instruction prior) _ _ =>
    (convergePlan text digest snapshot instruction prior
      { candidates, interpretRevision, before := w.backend, after := w.backend, now }).toOption.map
      fun step => { w with attempt := .ofStep candidates step }
  | .write, .calling (.converge _ _ _) _ _ =>
    match w.attempt with
    | .planned candidates decision => w.patch decision (.wrote candidates decision)
    | _ => none
  | .verify, .calling (.converge snapshot _ _) _ _ =>
    match w.attempt with
    | .wrote candidates decision =>
      (w.backend.readBack text snapshot.ynabId).toOption.map fun read =>
        { w with attempt := .done (.converged (convergeVerify digest candidates decision read)) }
    | _ => none
  | .commit, .calling (.commitToYnab decision) _ _ => w.patch decision (.done .done)
  | .readBack, .calling (.readBack _) _ _ =>
    (w.backend.readBack text w.driver.ynabId).toOption.map fun read =>
      { w with attempt := .done (.read read) }
  | .send threadId, .calling (.openThread _ _ _ _) _ _ =>
    if w.composes text then some { w with attempt := .done (.thread threadId) } else none
  | .send _, .calling (.sendThreadMessage _ _ _ _ _ _) _ _ =>
    if w.composes text then some { w with attempt := .done .done } else none
  | .settle, .calling (.feedRuleLearning _) _ _ => some { w with attempt := .done .done }
  | .settle, .calling (.recordAutoAction _) _ _ => some { w with attempt := .done .done }
  | .settle, .calling (.closeThread _) _ _ => some { w with attempt := .done .done }
  | _, _ => none

def step (w : LiveWorld) : LiveAct → Option LiveWorld
  | .edit live monthClosed => some { w with live, monthClosed }
  | .drive (.returned _ _) => none
  | .drive act =>
    (w.driver.step text digest act).map fun d =>
      { w with driver := d, attempt := if act.resumes then .idle else w.attempt }
  | .work work => w.attempted text digest work
  | .returns m =>
    match w.attempt with
    | .done result =>
      (w.driver.step text digest (.returned m result)).map fun d =>
        { w with driver := d, attempt := .idle }
    | _ => none

abbrev Run := Lib.Run (Lib.StepOf (LiveWorld.step text digest))

/-! ## What one step can do -/

/-- What an attempt comes to; but for a write, the live transaction stays as it is. -/
inductive Worked (w : LiveWorld) : Work → Attempt → Prop
  | fetched {rest : List Effect} {resume : Resume} {snapshot? : Option YnabSnapshot}
      (hpc : w.driver.pc = .calling .fetchSnapshot rest resume)
      (hread : w.backend.snapshot text w.driver.ynabId = .ok snapshot?) :
      Worked w .fetch (.done (.snapshot snapshot?))
  | enriched {inputs : EnrichInputs} {snapshot : YnabSnapshot} {rest : List Effect}
      {resume : Resume} {outcome : EnrichmentOutcome}
      (hpc : w.driver.pc = .calling (.enrich snapshot) rest resume)
      (houtcome : decideEnrichment text inputs.propose snapshot inputs.candidates inputs.rules
        inputs.counters inputs.now = .ok outcome) :
      Worked w (.enrich inputs) (.done (.enriched outcome))
  | interpreted {interpret : InterpretRequest → Interpretation}
      {candidates : List CandidateCategory} {now : Datetime} {signal : InboundSignal}
      {snapshot : YnabSnapshot} {proposal : Option Proposal} {rest : List Effect} {resume : Resume}
      {outcome : ReplyOutcome}
      (hpc : w.driver.pc = .calling (.interpretInbound signal snapshot proposal) rest resume)
      (houtcome : interpretInbound text interpret candidates now signal snapshot proposal
        = .ok outcome) :
      Worked w (.interpret interpret candidates now) (.done (.interpreted outcome))
  | planned {candidates : List CandidateCategory}
      {interpretRevision : RevisionRequest → RevisionTarget} {now : Datetime}
      {snapshot : YnabSnapshot} {instruction : InboundSignal} {prior : Option Decision}
      {rest : List Effect} {resume : Resume} {step : ConvergeStep}
      (hpc : w.driver.pc = .calling (.converge snapshot instruction prior) rest resume)
      (hstep : convergePlan text digest snapshot instruction prior
        { candidates, interpretRevision, before := w.backend, after := w.backend, now }
          = .ok step) :
      Worked w (.plan candidates interpretRevision now) (.ofStep candidates step)
  | verified {candidates : List CandidateCategory} {decision : Decision} {snapshot : YnabSnapshot}
      {instruction : InboundSignal} {prior : Option Decision} {rest : List Effect}
      {resume : Resume} {read : Option TargetState}
      (hpc : w.driver.pc = .calling (.converge snapshot instruction prior) rest resume)
      (hwrote : w.attempt = .wrote candidates decision)
      (hread : w.backend.readBack text snapshot.ynabId = .ok read) :
      Worked w .verify (.done (.converged (convergeVerify digest candidates decision read)))
  | readBack {written : Option Decision} {rest : List Effect} {resume : Resume}
      {read : Option TargetState} (hpc : w.driver.pc = .calling (.readBack written) rest resume)
      (hread : w.backend.readBack text w.driver.ynabId = .ok read) :
      Worked w .readBack (.done (.read read))
  | opened {threadId : ThreadId} {c : Call} {rest : List Effect} {resume : Resume}
      (hpc : w.driver.pc = .calling c rest resume) (hmail : c.mail? = some .opening)
      (hcomposes : w.composes text = true) :
      Worked w (.send threadId) (.done (.thread threadId))
  | sent {threadId thread : ThreadId} {c : Call} {rest : List Effect} {resume : Resume} {seq : Nat}
      (hpc : w.driver.pc = .calling c rest resume) (hmail : c.mail? = some (.followUp thread seq))
      (hcomposes : w.composes text = true) :
      Worked w (.send threadId) (.done .done)
  | settled {c : Call} {rest : List Effect} {resume : Resume}
      (hpc : w.driver.pc = .calling c rest resume) (hc : c.plain = true) (hmail : c.mail? = none) :
      Worked w .settle (.done .done)

/-- The steps beside a live transaction. -/
inductive Turn (w : LiveWorld) : LiveAct → LiveWorld → Prop
  | edited (live : Option WireTransaction) (monthClosed : Bool) :
      Turn w (.edit live monthClosed) { w with live, monthClosed }
  | drove {act : Driver.Act} {d : Driver} (hact : ∀ m result, act ≠ .returned m result)
      (hturn : Driver.Turn text digest w.driver act d) :
      Turn w (.drive act)
        { w with driver := d, attempt := if act.resumes then .idle else w.attempt }
  | returned {result : ActivityResult} {d : Driver} (m : Moment) (hdone : w.attempt = .done result)
      (hturn : Driver.Turn text digest w.driver (.returned m result) d) :
      Turn w (.returns m) { w with driver := d, attempt := .idle }
  | worked {work : Work} {attempt : Attempt} (h : Worked text digest w work attempt) :
      Turn w (.work work) { w with attempt }
  | wrote {candidates : List CandidateCategory} {decision : Decision} {wire : WireTransaction}
      {snapshot : YnabSnapshot} {instruction : InboundSignal} {prior : Option Decision}
      {rest : List Effect} {resume : Resume}
      (hpc : w.driver.pc = .calling (.converge snapshot instruction prior) rest resume)
      (hplanned : w.attempt = .planned candidates decision) (hlive : w.live = some wire) :
      Turn w (.work .write)
        { w with live := some (wire.patched (toPatch decision)),
                 attempt := .wrote candidates decision }
  | committed {decision : Decision} {wire : WireTransaction} {rest : List Effect} {resume : Resume}
      (hpc : w.driver.pc = .calling (.commitToYnab decision) rest resume)
      (hlive : w.live = some wire) :
      Turn w (.work .commit)
        { w with live := some (wire.patched (toPatch decision)), attempt := .done .done }

variable {text digest} {w w' : LiveWorld}

theorem attempted_turn {work : Work} (h : w.attempted text digest work = some w') :
    Turn text digest w (.work work) w' := by
  have hok : ∀ {ε α : Type} {x : Except ε α} {f : α → LiveWorld}, x.toOption.map f = some w' →
      ∃ a, x = .ok a ∧ w' = f a := by
    intro ε α x f h
    cases x with
    | error e => cases h
    | ok a => cases h; exact ⟨a, rfl, rfl⟩
  unfold attempted at h
  split at h
  · rename_i hpc
    obtain ⟨snapshot?, hread, rfl⟩ := hok h
    exact .worked (.fetched hpc hread)
  · rename_i hpc
    obtain ⟨outcome, houtcome, rfl⟩ := hok h
    exact .worked (.enriched hpc houtcome)
  · rename_i hpc
    obtain ⟨outcome, houtcome, rfl⟩ := hok h
    exact .worked (.interpreted hpc houtcome)
  · rename_i hpc
    obtain ⟨step, hstep, rfl⟩ := hok h
    exact .worked (.planned hpc hstep)
  · rename_i hpc
    split at h
    · rename_i candidates decision hplanned
      obtain ⟨wire, hlive, rfl⟩ := Option.map_eq_some_iff.1 h
      exact .wrote hpc hplanned hlive
    · cases h
  · rename_i hpc
    split at h
    · rename_i candidates decision hwrote
      obtain ⟨read, hread, rfl⟩ := hok h
      exact .worked (.verified hpc hwrote hread)
    · cases h
  · rename_i hpc
    obtain ⟨wire, hlive, rfl⟩ := Option.map_eq_some_iff.1 h
    exact .committed hpc hlive
  · rename_i hpc
    obtain ⟨read, hread, rfl⟩ := hok h
    exact .worked (.readBack hpc hread)
  · rename_i hpc
    split at h
    · rename_i hcomposes; cases h; exact .worked (.opened hpc rfl hcomposes)
    · cases h
  · rename_i hpc
    split at h
    · rename_i hcomposes; cases h; exact .worked (.sent hpc rfl hcomposes)
    · cases h
  · rename_i hpc; cases h; exact .worked (.settled hpc rfl rfl)
  · rename_i hpc; cases h; exact .worked (.settled hpc rfl rfl)
  · rename_i hpc; cases h; exact .worked (.settled hpc rfl rfl)
  · cases h

/-- Every step is one of the turns. -/
theorem step_turn {act : LiveAct} (h : w.step text digest act = some w') :
    Turn text digest w act w' := by
  unfold step at h
  split at h
  · cases h; exact .edited _ _
  · cases h
  · rename_i act hact
    obtain ⟨d, hd, rfl⟩ := Option.map_eq_some_iff.1 h
    exact .drove hact (Driver.step_turn hd)
  · exact attempted_turn h
  · rename_i m
    split at h
    · rename_i result hdone
      obtain ⟨d, hd, rfl⟩ := Option.map_eq_some_iff.1 h
      exact .returned m hdone (Driver.step_turn hd)
    · cases h

theorem Turn.calling {act : LiveAct} (h : Turn text digest w act w') (hw : w.driver.Calling) :
    w'.driver.Calling := by
  cases h with
  | drove hact hturn => exact hturn.calling hw
  | returned m hdone hturn => exact hturn.calling hw
  | _ => exact hw

end steps

end LiveWorld

abbrev LiveBeat := Lib.Beat LiveWorld LiveAct

end YnabAgent
