import YnabAgent.Domain.Runs
import YnabAgent.Workflow.Events

/-!
# When the machine raises on a live read

The states after a write validate at construction, and the driver builds its events from live YNAB
reads. Two of them adopt a read as it is: the archive-time override, and the fold of a receipt into
the live end-state. `advance_returns_iff`: on the events the driver builds, `advance` returns
exactly when an adopted read meets what the adopting state validates (`Admits`). Every other event
is safe in every reachable state.
-/

namespace YnabAgent

/-! ## Single handlers -/

section handlers
variable {now : Datetime} {policy : LifecyclePolicy}

theorem resolveWriteVerify_returns {core : TxnCore} {decision : Decision}
    (h : Committed core decision) (outcome : VerifyOutcome) (message : MessagePurpose)
    (learning : Option RuleLearningKind) :
    ∃ tr, resolveWriteVerify now policy core decision outcome message learning = .ok tr := by
  cases outcome with
  | «match» =>
    simp only [resolveWriteVerify]
    rw [Open.make_eq_ok h]
    exact ⟨_, rfl⟩
  | couldNotConfirm => exact ⟨_, rfl⟩
  | diverged => exact ⟨_, rfl⟩

theorem open_make_returns {core : TxnCore} {decision : Decision} {f : Open → Transition} :
    (∃ tr, (Open.make core decision >>= fun o => pure (f o)) = Except.ok tr) ↔
      Committed core decision := by
  constructor
  · rintro ⟨tr, h⟩
    obtain ⟨o, ho, -⟩ := Lib.bind_eq_ok h
    obtain ⟨hc, -⟩ := Lib.bind_eq_ok ho
    exact hc.down
  · intro h
    rw [Open.make_eq_ok h]
    exact ⟨_, rfl⟩

/-- An override is adopted in `OPEN` only when it is itself committed; a reconciled transaction is
archived on whatever the owner chose. -/
theorem fromOpen_override_returns {s : Open} {decision : Decision} :
    (∃ tr, fromOpen s (.overrideDetected decision) = .ok tr) ↔
      (s.core.snapshot.reconciled = false → Committed s.core decision) := by
  simp only [fromOpen]
  cases hrec : s.core.snapshot.reconciled with
  | false =>
    rw [if_pos (by rfl), open_make_returns]
    exact ⟨fun h _ => h, fun h => h rfl⟩
  | true =>
    rw [if_neg (by decide), Archived.make_eq_ok hrec (by intro h; cases h)]
    exact ⟨fun _ h => (by cases h), fun _ => ⟨_, rfl⟩⟩

theorem fromOpen_archive_returns (s : Open) :
    ∃ tr, fromOpen s .archiveWindowReached = .ok tr := by
  simp only [fromOpen]
  cases hrec : s.core.snapshot.reconciled with
  | false => exact ⟨_, rfl⟩
  | true =>
    rw [if_neg (by decide), Archived.make_eq_ok hrec (by intro h; cases h)]
    exact ⟨_, rfl⟩

theorem fromLapsed_archive_returns (s : Lapsed) :
    ∃ tr, fromLapsed s .archiveWindowReached = .ok tr := by
  simp only [fromLapsed]
  cases hrec : s.core.snapshot.reconciled with
  | false => exact ⟨_, rfl⟩
  | true =>
    cases hcat : s.core.snapshot.categorized with
    | false => exact ⟨_, rfl⟩
    | true =>
      rw [if_neg (by decide), if_neg (by decide), Archived.make_eq_ok hrec (fun _ => hcat)]
      exact ⟨_, rfl⟩

theorem reapply_returns {s : Revising} {decision : Decision} :
    (∃ tr, reapply now policy s decision = .ok tr) ↔ Committed s.core decision :=
  open_make_returns

theorem resolveNoChange_returns {s : Revising} (h : PriorCommitted (.revising s)) :
    ∃ tr, resolveNoChange now policy s = .ok tr := by
  unfold resolveNoChange
  split
  · rename_i prior _ hprior
    rw [Open.make_eq_ok (h prior hprior).2]
    exact ⟨_, rfl⟩
  · exact ⟨_, rfl⟩

theorem fromEnriching_returns {s : Enriching} {outcome : EnrichmentOutcome}
    (h : ∀ decision, outcome = .autoApply decision →
      decision.decidedBy = .agent ∧ Committed s.core decision) :
    ∃ tr, fromEnriching now policy s (.enriched outcome) = .ok tr := by
  cases outcome with
  | autoApply decision =>
    obtain ⟨hagent, hc⟩ := h decision rfl
    simp only [fromEnriching]
    rw [AutoApplied.make_eq_ok hagent hc]
    exact ⟨_, rfl⟩
  | askHuman proposal => exact ⟨_, rfl⟩

theorem fromAwaitingHuman_returns {s : AwaitingHuman} {outcome : ReplyOutcome}
    (h : ∀ decision, outcome = .answer decision → Committed s.core decision) :
    ∃ tr, fromAwaitingHuman now policy s (replyEvent outcome) = .ok tr := by
  cases outcome with
  | answer decision =>
    simp only [fromAwaitingHuman, replyEvent]
    rw [Applied.make_eq_ok (h decision rfl)]
    exact ⟨_, rfl⟩
  | clarify question => exact ⟨_, rfl⟩

end handlers

/-! ## What the activities return -/

section activities
variable {text : PyText} {δ : Type} [DecidableEq δ] {digest : TargetState → δ}

theorem interpretInbound_answer {interpret : InterpretRequest → Interpretation}
    {candidates : List CandidateCategory} {now : Datetime} {signal : InboundSignal}
    {snapshot : YnabSnapshot} {proposal : Option Proposal} {decision : Decision}
    (h : interpretInbound text interpret candidates now signal snapshot proposal
      = .ok (.answer decision)) :
    ∃ category memo, decision = humanDecision category now memo := by
  unfold interpretInbound at h
  split at h
  · cases h
  · simp only at h
    split at h
    · exact toReplyOutcome_answer (Except.ok.inj h)
    · cases h

/-- The fold of a receipt keeps the live category and the live approval, in the agent's name. -/
theorem foldReceipt_write {receipt : Receipt} {live : Option TargetState} {now : Datetime}
    {decision : Decision} (h : foldReceipt text receipt live now = .write decision) :
    ∃ read category tag, live = some read ∧ read.allocation = .category category tag ∧
      decision.allocation = .category category tag ∧ decision.approved = read.approved ∧
      decision.decidedBy = .agent := by
  unfold foldReceipt at h
  split at h
  · simp only at h
    split at h
    · cases h
    · cases h; exact ⟨_, _, _, rfl, rfl, rfl, rfl, rfl⟩
  · cases h

theorem foldReceipt_memo {receipt : Receipt} {live : TargetState} {now : Datetime}
    {decision : Decision} (h : foldReceipt text receipt (some live) now = .write decision) :
    decision.memo = some (receiptMemo text receipt live.memo) := by
  unfold foldReceipt at h
  split at h
  · rename_i heq
    cases heq
    simp only at h
    split at h
    · cases h
    · cases h; rfl
  · cases h

theorem convergeVerify_reapplied {candidates : List CandidateCategory} {decision d : Decision}
    {read : Option TargetState} :
    convergeVerify digest candidates decision read = .reapplied d ↔
      classifyVerify digest read (targetOf decision) = .match ∧ decision = d := by
  unfold convergeVerify
  cases classifyVerify digest read (targetOf decision) <;> simp

/-- A reply-driven run re-applies one category, approved, in the human's name. -/
theorem convergeReply_reapplied {snapshot : YnabSnapshot} {instruction : String}
    {prior : Option Decision} {inputs : ConvergeInputs} {step : ConvergeStep}
    (h : convergeReply text digest snapshot instruction prior inputs = .ok step)
    {decision : Decision} (hstep : step = .done (.reapplied decision) ∨ step = .write decision) :
    decision.approved = true ∧ decision.decidedBy = .human ∧
      ∃ category, decision.allocation = .category category none := by
  unfold convergeReply at h
  split at h
  · simp only at h
    split at h
    · cases h; rcases hstep with hs | hs <;> cases hs
    · split at h
      · cases h; rcases hstep with hs | hs <;> cases hs
      · obtain ⟨current, -, h⟩ := Lib.bind_eq_ok h
        split at h <;> cases h <;> rcases hstep with hs | hs <;> cases hs <;>
          exact ⟨rfl, rfl, _, rfl⟩
  · cases h

end activities

/-! ## The reads a state adopts -/

section admits
variable (text : PyText) {δ : Type} [DecidableEq δ] (digest : TargetState → δ)

/-- What a written state demands of a live end-state: approved, and a split that sums to the
transaction amount. -/
def Adoptable (amount : Money) (read : TargetState) : Prop :=
  read.approved = true ∧ ∀ split, read.allocation = .split split → split.total = amount

/-- The receipt is folded into the live end-state `live`, written, and read back as written. -/
def FoldLands (snapshot : YnabSnapshot) (receipt : Receipt) (inputs : ConvergeInputs)
    (live : TargetState) : Prop :=
  reconciliationBlocks snapshot = false ∧
    inputs.before.readBack text snapshot.ynabId = .ok (some live) ∧
    ∃ decision read, foldReceipt text receipt (some live) inputs.now = .write decision ∧
      inputs.after.readBack text snapshot.ynabId = .ok read ∧
      classifyVerify digest read (targetOf decision) = .match

/-- The run of these inputs folds the receipt into the live end-state `live`: it writes `decision`
and reads it back as written. -/
structure FoldsInto (snapshot : YnabSnapshot) (receipt : Receipt) (inputs : ConvergeInputs)
    (live : TargetState) (decision : Decision) : Prop where
  editable : reconciliationBlocks snapshot = false
  read : inputs.before.readBack text snapshot.ynabId = .ok (some live)
  writes : foldReceipt text receipt (some live) inputs.now = .write decision
  verified : ∃ read, inputs.after.readBack text snapshot.ynabId = .ok read ∧
    classifyVerify digest read (targetOf decision) = .match

/-- The live reads a state adopts meet what it validates: an override of an unreconciled `OPEN`
transaction is adoptable, and a receipt folds only into an approved transaction. -/
def Admits (ynabId : YnabTransactionId) (txn : Transaction) (input : DriverInput) : Prop :=
  match txn, input with
  | .opened s, .readBack backend =>
    ∀ read, backend.readBack text ynabId = .ok (some read) →
      read.allocation ≠ s.decision.allocation → s.core.snapshot.reconciled = false →
      Adoptable s.core.snapshot.amount read
  | .revising s, .converged inputs =>
    ∀ sig live, s.instruction = .receipt sig →
      FoldLands text digest s.core.snapshot sig.receipt inputs live → live.approved = true
  | _, _ => True

end admits

section main
variable {text : PyText} {δ : Type} [DecidableEq δ] {digest : TargetState → δ}
  {now : Datetime} {policy : LifecyclePolicy}

/-- An override carries the live read, so it is committed exactly when the read is adoptable. -/
theorem committed_overrideDecision {core : TxnCore} {read : TargetState} :
    Committed core (overrideDecision read now) ↔ Adoptable core.snapshot.amount read :=
  ⟨fun h => ⟨h.approved, fun _ hs => h.balanced hs⟩, fun h => ⟨h.1, fun hs => h.2 _ hs⟩⟩

/-- A landed fold is what a receipt-driven run re-applies. -/
theorem converge_of_foldLands {snapshot : YnabSnapshot} {sig : ReceiptSignal}
    (prior : Option Decision) {inputs : ConvergeInputs} {live : TargetState}
    (h : FoldLands text digest snapshot sig.receipt inputs live) :
    ∃ decision, converge text digest snapshot (.receipt sig) prior inputs
      = .ok (.reapplied decision) ∧ decision.approved = live.approved := by
  obtain ⟨hblocks, hlive, decision, read, hfold, hread, hmatch⟩ := h
  refine ⟨decision, ?_, ?_⟩
  · simp only [converge, convergePlan, hblocks, hlive, hfold, hread, bind, Except.bind, pure,
      Except.pure, Bool.false_eq_true, ↓reduceIte]
    rw [convergeVerify_reapplied.2 ⟨hmatch, rfl⟩]
  · obtain ⟨read, _, _, hread, -, -, happr, -⟩ := foldReceipt_write hfold
    cases hread
    exact happr

theorem FoldsInto.lands {snapshot : YnabSnapshot} {receipt : Receipt} {inputs : ConvergeInputs}
    {live : TargetState} {decision : Decision}
    (h : FoldsInto text digest snapshot receipt inputs live decision) :
    FoldLands text digest snapshot receipt inputs live := by
  obtain ⟨read, hread, hmatch⟩ := h.verified
  exact ⟨h.editable, h.read, decision, read, h.writes, hread, hmatch⟩

/-- The fold has the live category and the live approval, and the receipt's memo. -/
theorem FoldsInto.keeps {snapshot : YnabSnapshot} {receipt : Receipt} {inputs : ConvergeInputs}
    {live : TargetState} {decision : Decision}
    (h : FoldsInto text digest snapshot receipt inputs live decision) :
    (∃ category tag, live.allocation = .category category tag) ∧
      decision.allocation = live.allocation ∧ decision.approved = live.approved ∧
      decision.memo = some (receiptMemo text receipt live.memo) := by
  obtain ⟨read, category, tag, hread, hlive, halloc, happr, -⟩ := foldReceipt_write h.writes
  cases hread
  exact ⟨⟨category, tag, hlive⟩, halloc.trans hlive.symm, happr, foldReceipt_memo h.writes⟩

/-- What a receipt-driven run re-applies is the fold it wrote. -/
theorem converge_folds {snapshot : YnabSnapshot} {sig : ReceiptSignal} {prior : Option Decision}
    {inputs : ConvergeInputs} {decision : Decision}
    (h : converge text digest snapshot (.receipt sig) prior inputs = .ok (.reapplied decision)) :
    ∃ live, FoldsInto text digest snapshot sig.receipt inputs live decision := by
  obtain ⟨step, hplan, h⟩ := Lib.bind_eq_ok h
  unfold convergePlan at hplan
  split at hplan
  · cases hplan; cases h
  rename_i hblocks
  obtain ⟨live?, hlive, hplan⟩ := Lib.bind_eq_ok hplan
  have hfold : foldReceipt text sig.receipt live? inputs.now = step := Except.ok.inj hplan
  cases step with
  | done outcome =>
    cases h
    -- the fold itself never re-applies
    unfold foldReceipt at hfold
    split at hfold
    · simp only at hfold
      split at hfold <;> cases hfold
    · cases hfold
  | write d =>
    obtain ⟨read, hread, h⟩ := Lib.bind_eq_ok h
    obtain ⟨hmatch, rfl⟩ := convergeVerify_reapplied.1 (Except.ok.inj h)
    obtain ⟨live, -, -, rfl, -⟩ := foldReceipt_write hfold
    exact ⟨live, by simpa using hblocks, hlive, hfold, read, hread, hmatch⟩

/-- What a converge run re-applies is one category: the human's, approved, or the fold of a receipt,
which has the live allocation and the live approval. -/
theorem converge_reapplied {snapshot : YnabSnapshot} {instruction : InboundSignal}
    {prior : Option Decision} {inputs : ConvergeInputs} {decision : Decision}
    (h : converge text digest snapshot instruction prior inputs = .ok (.reapplied decision)) :
    (∃ category tag, decision.allocation = .category category tag) ∧
      (decision.approved = true ∧ decision.decidedBy = .human ∨
        ∃ sig live, instruction = .receipt sig ∧
          FoldLands text digest snapshot sig.receipt inputs live ∧
          decision.approved = live.approved ∧ decision.allocation = live.allocation) := by
  cases instruction with
  | reply sig =>
    obtain ⟨step, hplan, h⟩ := Lib.bind_eq_ok h
    unfold convergePlan at hplan
    split at hplan
    · cases hplan; cases h
    have key : decision.approved = true ∧ decision.decidedBy = .human ∧
        ∃ category, decision.allocation = .category category none := by
      apply convergeReply_reapplied hplan
      cases step with
      | done outcome => cases h; exact .inl rfl
      | write d =>
        obtain ⟨read, -, h⟩ := Lib.bind_eq_ok h
        obtain ⟨-, rfl⟩ := convergeVerify_reapplied.1 (Except.ok.inj h)
        exact .inr rfl
    obtain ⟨happr, hhuman, category, halloc⟩ := key
    exact ⟨⟨category, none, halloc⟩, .inl ⟨happr, hhuman⟩⟩
  | receipt sig =>
    obtain ⟨live, hfolds⟩ := converge_folds h
    obtain ⟨⟨category, tag, hlive⟩, halloc, happr, -⟩ := hfolds.keeps
    exact ⟨⟨category, tag, halloc.trans hlive⟩,
      .inr ⟨sig, live, rfl, hfolds.lands, happr, halloc⟩⟩

theorem opened_returns_iff {s : Open} {ynabId : YnabTransactionId} {backend : YnabBackend}
    {read? : Option TargetState} (hread : backend.readBack text ynabId = .ok read?) :
    (∃ tr, fromOpen s (archiveOrOverride s.decision read? now) = .ok tr) ↔
      Admits text digest ynabId (.opened s) (.readBack backend) := by
  simp only [Admits, hread, Except.ok.injEq]
  cases read? with
  | none => exact ⟨fun _ _ h => (by cases h), fun _ => fromOpen_archive_returns s⟩
  | some read =>
    simp only [archiveOrOverride]
    by_cases hne : read.allocation ≠ s.decision.allocation
    · rw [if_pos hne, fromOpen_override_returns, committed_overrideDecision]
      constructor
      · intro h read' hread' _ hrec
        cases hread'
        exact h hrec
      · intro h hrec
        exact h read rfl hne hrec
    · rw [if_neg hne]
      refine ⟨fun _ read' hread' hne' => ?_, fun _ => fromOpen_archive_returns s⟩
      cases hread'
      exact absurd hne' hne

theorem revising_returns_iff {s : Revising} (hp : PriorCommitted (.revising s))
    {ynabId : YnabTransactionId} {inputs : ConvergeInputs} {outcome : ConvergeOutcome}
    (hconv : converge text digest s.core.snapshot s.instruction s.prior inputs = .ok outcome) :
    (∃ tr, fromRevising now policy s (.converged outcome) = .ok tr) ↔
      Admits text digest ynabId (.revising s) (.converged inputs) := by
  simp only [Admits]
  -- a landed fold is re-applied, so any other outcome meets the condition vacuously
  have vacuous : (∀ d, outcome ≠ .reapplied d) → ∀ sig live, s.instruction = .receipt sig →
      FoldLands text digest s.core.snapshot sig.receipt inputs live → live.approved = true := by
    intro hne sig live hsig hlands
    obtain ⟨d, hd, -⟩ := converge_of_foldLands s.prior hlands
    rw [hsig, hd] at hconv
    exact absurd (Except.ok.inj hconv).symm (hne d)
  cases outcome with
  | reapplied decision =>
    obtain ⟨⟨category, tag, halloc⟩, happr⟩ := converge_reapplied hconv
    change (∃ tr, reapply now policy s decision = .ok tr) ↔ _
    rw [reapply_returns]
    constructor
    · intro hc sig live hsig hlands
      obtain ⟨d, hd, hdl⟩ := converge_of_foldLands s.prior hlands
      rw [hsig, hd] at hconv
      cases Except.ok.inj hconv
      rw [← hdl]
      exact hc.approved
    · intro h
      refine committed_of_category ?_ halloc
      rcases happr with ⟨happr, -⟩ | ⟨sig, live, hsig, hlands, happr, -⟩
      · exact happr
      · rw [happr]; exact h sig live hsig hlands
  | noChange => exact ⟨fun _ => vacuous (by simp), fun _ => resolveNoChange_returns hp⟩
  | couldNotConfirm => exact ⟨fun _ => vacuous (by simp), fun _ => ⟨_, rfl⟩⟩
  | diverged ynab asked => exact ⟨fun _ => vacuous (by simp), fun _ => ⟨_, rfl⟩⟩
  | needsHuman reason => exact ⟨fun _ => vacuous (by simp), fun _ => ⟨_, rfl⟩⟩

/-- **`advance` on the driver's events.** In every reachable state, and for every event the driver
builds there, `advance` returns a transition exactly when the live reads the state adopts are
admitted. -/
theorem advance_returns_iff {txn : Transaction} (hreach : Reachable policy txn)
    {ynabId : YnabTransactionId} {input : DriverInput} {event : LifecycleEvent}
    (hevent : driverEvent text digest ynabId now txn input = .ok (some event)) :
    (∃ tr, advance now policy txn event = .ok tr) ↔ Admits text digest ynabId txn input := by
  have hp := hreach.priorCommitted
  cases txn with
  | discovered s => cases input <;> exact ⟨fun _ => trivial, fun _ => ⟨_, rfl⟩⟩
  | holdAmazon s => cases input <;> exact ⟨fun _ => trivial, fun _ => ⟨_, rfl⟩⟩
  | archived s => cases input <;> exact ⟨fun _ => trivial, fun _ => ⟨_, rfl⟩⟩
  | enriching s =>
    cases input with
    | enriched inputs =>
      obtain ⟨outcome, houtcome, hevent⟩ := Lib.map_eq_ok hevent
      cases hevent
      refine ⟨fun _ => trivial, fun _ => fromEnriching_returns fun decision hd => ?_⟩
      subst hd
      obtain ⟨-, rule, -, rfl⟩ := decideEnrichment_autoApply houtcome
      exact ⟨rfl, buildAutoDecision_committed rule s.core inputs.now⟩
    | _ => cases hevent
  | autoApplied s =>
    cases input with
    | readBack backend =>
      obtain ⟨read, -, hevent⟩ := Lib.map_eq_ok hevent
      cases hevent
      refine ⟨fun _ => trivial, fun _ => ?_⟩
      exact resolveWriteVerify_returns s.committed _ .fyi none
    | _ => cases hevent
  | applied s =>
    cases input with
    | readBack backend =>
      obtain ⟨read, -, hevent⟩ := Lib.map_eq_ok hevent
      cases hevent
      refine ⟨fun _ => trivial, fun _ => ?_⟩
      exact resolveWriteVerify_returns s.committed _ .confirm (some .confirm)
    | _ => cases hevent
  | awaitingHuman s =>
    cases input with
    | deadline =>
      cases hevent
      refine ⟨fun _ => trivial, fun _ => ?_⟩
      simp only [advance, fromAwaitingHuman]
      split <;> exact ⟨_, rfl⟩
    | interpreted inputs =>
      obtain ⟨outcome, houtcome, hevent⟩ := Lib.map_eq_ok hevent
      cases hevent
      refine ⟨fun _ => trivial, fun _ => fromAwaitingHuman_returns fun decision hd => ?_⟩
      subst hd
      obtain ⟨category, memo, rfl⟩ := interpretInbound_answer houtcome
      exact committed_of_category rfl rfl
    | _ => cases hevent
  | opened s =>
    cases input with
    | inbound signal => cases hevent; exact ⟨fun _ => trivial, fun _ => ⟨_, rfl⟩⟩
    | readBack backend =>
      obtain ⟨read, hread, hevent⟩ := Lib.map_eq_ok hevent
      cases hevent
      exact opened_returns_iff hread
    | _ => cases hevent
  | lapsed s =>
    cases input with
    | inbound signal => cases hevent; exact ⟨fun _ => trivial, fun _ => ⟨_, rfl⟩⟩
    | deadline => cases hevent; exact ⟨fun _ => trivial, fun _ => fromLapsed_archive_returns s⟩
    | _ => cases hevent
  | revising s =>
    cases input with
    | converged inputs =>
      obtain ⟨outcome, houtcome, hevent⟩ := Lib.map_eq_ok hevent
      cases hevent
      exact revising_returns_iff hp houtcome
    | _ => cases hevent

end main

/-! ## An override the machine cannot adopt -/

/-- A café charge, filed under dining by its owner and not yet reconciled. -/
def cafeSnapshot : YnabSnapshot :=
  { ynabId := "t1", account := "checking", payee := "Corner Cafe", amount := ⟨-12500⟩,
    txnDate := 739000 }

def cafeProposal : Proposal :=
  { allocation := .category "dining" none, confidence := .high, rationale := "a café" }

def cafeOpen : Open :=
  { core := { snapshot := cafeSnapshot }
    decision := humanDecision "dining" 0 none
    committed := committed_of_category rfl rfl }

theorem cafeOpen_reachable : Reachable defaultPolicy (.opened cafeOpen) := by
  have h₁ := (Reachable.born defaultPolicy "t1" none).step 0
    (.snapshotMaterialized cafeSnapshot false) rfl
  have h₂ := h₁.step 0 (.enriched (.askHuman cafeProposal)) rfl
  have h₃ := h₂.step 0 (.answerReceived (humanDecision "dining" 0 none)) rfl
  exact h₃.step 0 (.writeVerified .match) rfl

/-- YNAB after the owner moved the charge to groceries and cleared its approval. -/
def cafeRecategorized : YnabBackend :=
  { getTransaction := fun _ => some
      { id := "t1", accountId := "checking", date := 739000, amount := -12500, approved := false,
        payeeName := some "Corner Cafe", categoryId := some "groceries" }
    listTransactions := [] }

/-- The archive-time override of an unapproved recategorization raises. -/
theorem advance_raises_on_unapproved_override :
    Reachable defaultPolicy (.opened cafeOpen) ∧
      driverEvent PyText.ascii id "t1" 0 (.opened cafeOpen) (.readBack cafeRecategorized)
        = .ok (some (.overrideDetected
            { allocation := .category "groceries" none, approved := false, decidedBy := .human,
              decidedAt := 0 })) ∧
      advance 0 defaultPolicy (.opened cafeOpen) (.overrideDetected
        { allocation := .category "groceries" none, approved := false, decidedBy := .human,
          decidedAt := 0 })
        = .error ⟨"a post-write state requires an approved decision"⟩ :=
  ⟨cafeOpen_reachable, rfl, rfl⟩

/-- At that read the law says the same: the override is returned on exactly when it is admitted. -/
theorem advance_returns_at_cafe :
    (∃ tr, advance 0 defaultPolicy (.opened cafeOpen)
      (archiveOrOverride cafeOpen.decision
        (some { allocation := .category "groceries" none, approved := false }) 0) = .ok tr) ↔
      Admits PyText.ascii id "t1" (.opened cafeOpen) (.readBack cafeRecategorized) :=
  advance_returns_iff cafeOpen_reachable rfl

end YnabAgent
