import YnabAgent.Agentic.Interpret

/-!
# The activities of the lifecycle

The bodies of the interpret and converge activities (`workflow/activities.py`) over what they read:
the candidate categories, the model's reading of the text, and the live YNAB transaction before and
after a write. Converge is split where it writes: `convergePlan` ends in an outcome or in the
decision to write, and `convergeVerify` compares the read after the write.
-/

namespace YnabAgent

/-! ## Interpreting an inbound -/

/-- The single proposed category; a split is not approvable. -/
def proposedCategoryId (proposal : Option Proposal) : Option CategoryId :=
  proposal.bind fun p =>
    match p.allocation with
    | .category category _ => some category
    | .split _ => none

/-- The name of a category, or its id when it has no name. -/
def categoryLabel (candidates : List CandidateCategory) (id : CategoryId) : String :=
  (candidateName candidates id).getD id

section activities
variable (text : PyText) {δ : Type} [DecidableEq δ] (digest : TargetState → δ)

def interpretInbound (interpret : InterpretRequest → Interpretation)
    (candidates : List CandidateCategory) (now : Datetime) (signal : InboundSignal)
    (snapshot : YnabSnapshot) (proposal : Option Proposal) :
    Except ActivityFailure ReplyOutcome :=
  match signal with
  | .receipt sig =>
    .ok (.clarify ("Matched your forwarded receipt to this charge: "
      ++ receiptSummary text sig.receipt ++ ". Which category should "
      ++ "it be? (Reply with any detail you want in the memo, too.)"))
  | .reply sig =>
    let proposed := proposedCategoryId proposal
    if h : candidates ≠ [] then
      let request : InterpretRequest :=
        { replyText := sig.text, payee := snapshot.payee
          amountDisplay := snapshot.amount.display
          proposedCategoryName := proposed.map (categoryLabel candidates)
          candidates, nonempty := h }
      .ok (toReplyOutcome text (interpret request) proposed now candidates sig.text)
    else .error ⟨"ValidationError", "candidates: at least 1 item"⟩

/-! ## Converging -/

/-- A short description of an end-state, for a divergence note. -/
def targetSummary (candidates : List CandidateCategory) (target : Option TargetState) : String :=
  match target with
  | none => "(could not read)"
  | some target =>
    let label :=
      match target.allocation with
      | .category category _ => categoryLabel candidates category
      | .split _ => "a split"
    match presentText target.memo with
    | some memo => label ++ " — " ++ memo
    | none => label

/-- Where a converge run stands before it writes: done, or about to write a decision. -/
inductive ConvergeStep
  | done (outcome : ConvergeOutcome)
  | write (decision : Decision)
  deriving DecidableEq

/-- The receipt fold works on the live end-state; approval is preserved, never granted. -/
def foldReceipt (receipt : Receipt) (live : Option TargetState) (now : Datetime) : ConvergeStep :=
  match live with
  | some ⟨.category category tag, memo, approved⟩ =>
    let merged := receiptMemo text receipt memo
    if merged = text.strip (memo.getD "") then .done .noChange
    else .write { allocation := .category category tag, memo := some merged, approved,
                  decidedBy := .agent, decidedAt := now }
  | _ =>
    .done (.needsHuman ("your receipt (" ++ receiptSummary text receipt ++ ") matched "
      ++ "this charge, but it isn't filed under a single category yet — reply with the "
      ++ "category to use, and the receipt's items above are here for reference"))

/-- The decision a reply revises the transaction to. -/
def revisionDecision (snapshot : YnabSnapshot) (plan : RevisionPlan) (planned : CategoryId)
    (now : Datetime) : Decision :=
  { allocation := .category planned none, memo := plan.memo.or snapshot.memo, approved := true,
    decidedBy := .human, decidedAt := now }

/-- What a converge run reads: the categories, the model, YNAB before and after a write, and the
clock. -/
structure ConvergeInputs where
  candidates : List CandidateCategory
  interpretRevision : RevisionRequest → RevisionTarget
  before : YnabBackend
  after : YnabBackend
  now : Datetime

def convergeReply (snapshot : YnabSnapshot) (instruction : String) (prior : Option Decision)
    (inputs : ConvergeInputs) : Except ActivityFailure ConvergeStep :=
  if h : inputs.candidates ≠ [] then
    let request : RevisionRequest :=
      { instruction
        currentCategoryName :=
          (snapshot.categoryId.map (categoryLabel inputs.candidates)).getD "(uncategorized)"
        candidates := inputs.candidates
        currentMemo := snapshot.memo
        nonempty := h }
    let plan := toRevisionPlan (inputs.interpretRevision request) inputs.candidates
    if !plan.changes then .ok (.done .noChange)
    else
      match plan.categoryId.or snapshot.categoryId with
      | none => .ok (.done (.needsHuman "revision did not resolve a category"))
      | some planned => do
        let decision := revisionDecision snapshot plan planned inputs.now
        let endState := targetOf decision
        -- the current end-state is read before anything is written
        let current ← inputs.before.readBack text snapshot.ynabId
        match precommitAction digest current endState (prior.map targetOf) with
        | .noChange => pure (.done .noChange)
        | .alreadyTarget => pure (.done (.reapplied decision))
        | .diverged =>
          pure (.done (.diverged (targetSummary inputs.candidates current)
            (targetSummary inputs.candidates (some endState))))
        | .write => pure (.write decision)
  else .error ⟨"ValidationError", "candidates: at least 1 item"⟩

def convergePlan (snapshot : YnabSnapshot) (instruction : InboundSignal) (prior : Option Decision)
    (inputs : ConvergeInputs) : Except ActivityFailure ConvergeStep :=
  if reconciliationBlocks snapshot then
    .ok (.done (.needsHuman "reconciled or closed-month — propose, don't silently edit"))
  else
    match instruction with
    | .receipt sig => do
      let live ← inputs.before.readBack text snapshot.ynabId
      pure (foldReceipt text sig.receipt live inputs.now)
    | .reply sig => convergeReply text digest snapshot sig.text prior inputs

def convergeVerify (candidates : List CandidateCategory) (decision : Decision)
    (read : Option TargetState) : ConvergeOutcome :=
  match classifyVerify digest read (targetOf decision) with
  | .match => .reapplied decision
  | .couldNotConfirm => .couldNotConfirm
  | .diverged =>
    .diverged (targetSummary candidates read) (targetSummary candidates (some (targetOf decision)))

def converge (snapshot : YnabSnapshot) (instruction : InboundSignal) (prior : Option Decision)
    (inputs : ConvergeInputs) : Except ActivityFailure ConvergeOutcome := do
  match ← convergePlan text digest snapshot instruction prior inputs with
  | .done outcome => pure outcome
  | .write decision => do
    let read ← inputs.after.readBack text snapshot.ynabId
    pure (convergeVerify digest inputs.candidates decision read)

end activities

end YnabAgent
