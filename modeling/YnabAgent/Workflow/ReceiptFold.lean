import YnabAgent.Workflow.Confirmations
import YnabAgent.Workflow.MemoRevision

/-!
# What a receipt's fold leaves alone

A receipt matched to a resting transaction is folded into its memo through the revise path, as a
decision of the agent under no rule. The category, the split lines and the approval are written as
they are read. The flag is written as the agent's, and the decision the transaction rests in is the
fold's own: both stay what they were, and the transaction comes back to rest, iff it is approved and
both were an agent's, of no rule, before (`fold_memo_only_iff`).
-/

namespace YnabAgent

/-- The state a resting transaction revises from when a receipt reaches it. -/
def Open.revised (s : Open) (sig : ReceiptSignal) : Revising :=
  { core := s.core, instruction := .receipt sig, origin := .applied, prior := some s.decision }

/-- The memo is the only field of the transaction the write of the decision changes. -/
def MemoOnlyWrite (live : WireTransaction) (decision : Decision) : Prop :=
  ∃ memo, live.patched (toPatch decision) = { live with memo }

section fold
variable (text : PyText) {δ : Type} [DecidableEq δ] (digest : TargetState → δ) (now : Datetime)
  (policy : LifecyclePolicy)

/-- A converge run on the receipt writes: the transaction may be edited, is read back under a single
category, and the receipt adds to its memo. -/
def FoldWrites (snapshot : YnabSnapshot) (sig : ReceiptSignal) (before : YnabBackend) : Prop :=
  reconciliationBlocks snapshot = false ∧
    ∃ read category tag, before.readBack text snapshot.ynabId = .ok (some read) ∧
      read.allocation = .category category tag ∧
      receiptMemo text sig.receipt read.memo ≠ text.strip (read.memo.getD "")

/-- Over every converge run on the receipt that first reads `before`, a write changes the memo
alone, a decision the transaction comes to rest in has the author and the rule of the one it rested
in, and a fold that is verified brings it back to rest. -/
def FoldsMemoOnly (s : Open) (sig : ReceiptSignal) (before : YnabBackend) (live : WireTransaction) :
    Prop :=
  ∀ inputs : ConvergeInputs, inputs.before = before →
    (∀ decision, convergePlan text digest s.core.snapshot (.receipt sig) (some s.decision) inputs
      = .ok (.write decision) → MemoOnlyWrite live decision) ∧
    (∀ outcome tr o, converge text digest s.core.snapshot (.receipt sig) (some s.decision) inputs
        = .ok outcome →
      advance now policy (.revising (s.revised sig)) (.converged outcome) = .ok tr →
      tr.next = .opened o →
      o.decision.decidedBy = s.decision.decidedBy ∧ o.decision.ruleId = s.decision.ruleId) ∧
    ∀ decision, converge text digest s.core.snapshot (.receipt sig) (some s.decision) inputs
        = .ok (.reapplied decision) →
      ∃ tr o, advance now policy (.revising (s.revised sig)) (.converged (.reapplied decision))
          = .ok tr ∧ tr.next = .opened o

end fold

/-- A receipt takes a resting transaction to `Open.revised`. -/
theorem advance_receipt (now : Datetime) (policy : LifecyclePolicy) (s : Open)
    (sig : ReceiptSignal) :
    advance now policy (.opened s) (.inboundReceived (.receipt sig))
      = .ok (advanced (.revising (s.revised sig)) [.cancelTimer .archive]) := rfl

/-- The decision a fold writes. -/
def foldDecision (text : PyText) (receipt : Receipt) (read : TargetState) (now : Datetime) :
    Decision :=
  { allocation := read.allocation, memo := some (receiptMemo text receipt read.memo),
    approved := read.approved, decidedBy := .agent, decidedAt := now }

section writes
variable {text : PyText} {δ : Type} [DecidableEq δ] {digest : TargetState → δ} {now : Datetime}
  {policy : LifecyclePolicy} {snapshot : YnabSnapshot} {sig : ReceiptSignal}
  {prior : Option Decision} {inputs : ConvergeInputs} {live : WireTransaction} {s : Open}
  {decision : Decision}

/-- A run on a receipt writes exactly the fold of what it reads. -/
theorem convergePlan_receipt_iff :
    convergePlan text digest snapshot (.receipt sig) prior inputs = .ok (.write decision) ↔
      reconciliationBlocks snapshot = false ∧
        ∃ read category tag, inputs.before.readBack text snapshot.ynabId = .ok (some read) ∧
          read.allocation = .category category tag ∧
          receiptMemo text sig.receipt read.memo ≠ text.strip (read.memo.getD "") ∧
          decision = foldDecision text sig.receipt read inputs.now := by
  unfold convergePlan
  cases hblocks : reconciliationBlocks snapshot with
  | true => simp
  | false =>
    simp only [Bool.false_eq_true, if_false, true_and]
    cases hread : inputs.before.readBack text snapshot.ynabId with
    | error failure => simp [bind, Except.bind]
    | ok current =>
      simp only [bind, Except.bind, pure, Except.pure, Except.ok.injEq]
      constructor
      · intro h
        unfold foldReceipt at h
        split at h
        · rename_i category tag memo approved
          simp only at h
          split at h
          · cases h
          · rename_i hne
            cases h
            exact ⟨_, category, tag, rfl, rfl, hne, rfl⟩
        · cases h
      · rintro ⟨⟨allocation, memo, approved⟩, category, tag, rfl, rfl, hne, rfl⟩
        unfold foldReceipt foldDecision
        simp only
        rw [if_neg hne]

/-- An end-state under a single category: that of the transaction, its memo and its approval. -/
theorem endState_category {live : WireTransaction} {read : TargetState} {category : CategoryId}
    {tag : Option PersonTag} (hlive : live.endState = some read)
    (hcategory : read.allocation = .category category tag) :
    ¬ 1 < (toSplitLines live.subtransactions).length ∧ presentText live.categoryId = some category ∧
      read = { allocation := .category category none, memo := live.memo,
               approved := live.approved } := by
  unfold WireTransaction.endState at hlive
  split at hlive
  · cases hlive
    cases hcategory
  · rename_i hlines
    obtain ⟨category', hpresent, rfl⟩ := Option.map_eq_some_iff.1 hlive
    cases hcategory
    exact ⟨hlines, hpresent, rfl⟩

/-- The fold's write changes the memo alone iff the transaction already has the agent's flag. -/
theorem foldDecision_memoOnly_iff {read : TargetState} {category : CategoryId}
    {tag : Option PersonTag} (hlive : live.endState = some read)
    (hcategory : read.allocation = .category category tag) (receipt : Receipt) (time : Datetime) :
    MemoOnlyWrite live (foldDecision text receipt read time) ↔
      live.flagColor = some agentReviewFlag.value := by
  have hid : live.categoryId = some category := categoryId_of_endState hlive hcategory
  obtain ⟨-, -, rfl⟩ := endState_category hlive hcategory
  unfold MemoOnlyWrite foldDecision
  constructor
  · rintro ⟨memo, h⟩
    have hflag := congrArg WireTransaction.flagColor h
    exact hflag.symm
  · intro hflag
    refine ⟨some (receiptMemo text receipt live.memo), ?_⟩
    obtain ⟨⟩ := live
    cases hid
    cases hflag
    rfl

/-- How a run on a receipt ends. -/
theorem converge_receipt_cases {outcome : ConvergeOutcome}
    (h : converge text digest snapshot (.receipt sig) prior inputs = .ok outcome) :
    outcome = .noChange ∨ (∃ reason, outcome = .needsHuman reason) ∨
      ∃ decision read, convergePlan text digest snapshot (.receipt sig) prior inputs
          = .ok (.write decision) ∧
        outcome = convergeVerify digest inputs.candidates decision read := by
  unfold converge at h
  obtain ⟨step, hplan, h⟩ := Lib.bind_eq_ok h
  cases step with
  | write decision =>
    obtain ⟨read, -, h⟩ := Lib.bind_eq_ok h
    cases h
    exact .inr (.inr ⟨decision, read, hplan, rfl⟩)
  | done outcome' =>
    cases h
    unfold convergePlan at hplan
    split at hplan
    · cases hplan
      exact .inr (.inl ⟨_, rfl⟩)
    · obtain ⟨current, -, hplan⟩ := Lib.bind_eq_ok hplan
      have hfold := Except.ok.inj hplan
      unfold foldReceipt at hfold
      split at hfold
      · simp only at hfold
        split at hfold
        · cases hfold
          exact .inl rfl
        · cases hfold
      · cases hfold
        exact .inr (.inl ⟨_, rfl⟩)

/-- The decision a run on a receipt lets the transaction rest in: the one it had, or the fold. -/
theorem rests_in {outcome : ConvergeOutcome} {tr : Transition} {o : Open}
    (h : converge text digest s.core.snapshot (.receipt sig) prior inputs = .ok outcome)
    (hadvance : advance now policy (.revising (s.revised sig)) (.converged outcome) = .ok tr)
    (hnext : tr.next = .opened o) :
    o.decision = s.decision ∨
      ∃ decision, convergePlan text digest s.core.snapshot (.receipt sig) prior inputs
        = .ok (.write decision) ∧ o.decision = decision := by
  rcases converge_receipt_cases h with rfl | ⟨reason, rfl⟩ | ⟨decision, read, hplan, rfl⟩
  · obtain ⟨next, hmake, htr⟩ := Lib.bind_eq_ok hadvance
    cases htr
    cases hnext
    exact .inl (Open.of_make hmake).2
  · cases hadvance
    cases hnext
  · unfold convergeVerify at hadvance
    split at hadvance
    · obtain ⟨next, hmake, htr⟩ := Lib.bind_eq_ok hadvance
      cases htr
      cases hnext
      exact .inr ⟨decision, hplan, (Open.of_make hmake).2⟩
    · cases hadvance
      cases hnext
    · cases hadvance
      cases hnext

variable (prior) in
/-- What folds was planned as a write. -/
theorem FoldsInto.plan {target : TargetState}
    (h : FoldsInto text digest snapshot sig.receipt inputs target decision) :
    convergePlan text digest snapshot (.receipt sig) prior inputs = .ok (.write decision) := by
  simp only [convergePlan, h.editable, h.read, h.writes, bind, Except.bind, pure, Except.pure,
    Bool.false_eq_true, if_false]

/-- A re-application lets the transaction rest in what it re-applied. -/
theorem decision_of_reapplied {tr : Transition} {o : Open}
    (hadvance : advance now policy (.revising (s.revised sig)) (.converged (.reapplied decision))
      = .ok tr) (hnext : tr.next = .opened o) : o.decision = decision := by
  obtain ⟨next, hmake, htr⟩ := Lib.bind_eq_ok hadvance
  cases htr
  cases hnext
  exact (Open.of_make hmake).2

/-- A run that reads its fold back as written re-applies it. -/
theorem converge_of_read_back {read : TargetState}
    (hplan : convergePlan text digest snapshot (.receipt sig) prior inputs = .ok (.write decision))
    (hdecision : decision = foldDecision text sig.receipt read inputs.now)
    (hafter : inputs.after.readBack text snapshot.ynabId = .ok (some (targetOf decision))) :
    converge text digest snapshot (.receipt sig) prior inputs = .ok (.reapplied decision) := by
  have hverify : convergeVerify digest inputs.candidates decision (some (targetOf decision))
      = .reapplied decision := by
    have hmemo : (targetOf decision).memo ≠ none := by
      rw [hdecision]
      exact Option.some_ne_none _
    rw [convergeVerify_reapplied]
    unfold classifyVerify
    simp only [if_neg hmemo, if_true]
    exact ⟨trivial, trivial⟩
  unfold converge
  rw [hplan]
  simp only [bind, Except.bind, hafter, pure, Except.pure, hverify]

variable (now policy sig s) in
/-- An approved decision of one category brings the transaction back to rest. -/
theorem reapplied_rests {category : CategoryId} {tag : Option PersonTag}
    (happroved : decision.approved = true)
    (hcategory : decision.allocation = .category category tag) :
    ∃ tr o, advance now policy (.revising (s.revised sig)) (.converged (.reapplied decision))
      = .ok tr ∧ tr.next = .opened o := by
  have hcommitted : Committed s.core decision := committed_of_category happroved hcategory
  have hmake : advance now policy (.revising (s.revised sig)) (.converged (.reapplied decision))
      = reapply now policy (s.revised sig) decision := rfl
  rw [hmake]
  simp only [reapply, Open.revised, Open.make_eq_ok hcommitted, bind, Except.bind, pure,
    Except.pure]
  exact ⟨_, _, rfl, rfl⟩

end writes

/-! ## The law -/

section law
variable {text : PyText} {δ : Type} [DecidableEq δ] {digest : TargetState → δ}

/-- A transaction shows the fold once its patch is set. -/
theorem endState_folded {live : WireTransaction} {read : TargetState} {category : CategoryId}
    {tag : Option PersonTag} (hlive : live.endState = some read)
    (hcategory : read.allocation = .category category tag) (receipt : Receipt) (time : Datetime) :
    (live.patched (toPatch (foldDecision text receipt read time))).endState
      = some (targetOf (foldDecision text receipt read time)) := by
  obtain ⟨hlines, hpresent, rfl⟩ := endState_category hlive hcategory
  rw [presentText_eq_some hpresent] at hpresent
  unfold WireTransaction.endState
  split
  · rename_i h
    exact absurd h hlines
  · change Option.map _ (presentText (some category)) = _
    rw [hpresent]
    rfl

/-- **What a fold leaves alone.** Every converge run on a receipt changes the memo alone, leaves the
resting decision its author and its rule, and brings the transaction back to rest once its fold is
verified, iff the receipt writes nothing, or the transaction is approved, already has the agent's
flag and rests in a decision of the agent under no rule. -/
theorem fold_memo_only_iff (digest : TargetState → δ) (now : Datetime) (policy : LifecyclePolicy)
    (s : Open) (sig : ReceiptSignal) {before : YnabBackend} {live : WireTransaction}
    (hfind : before.find s.core.snapshot.ynabId = some live) :
    FoldsMemoOnly text digest now policy s sig before live ↔
      (FoldWrites text s.core.snapshot sig before →
        live.flagColor = some agentReviewFlag.value ∧ live.approved = true ∧
        s.decision.decidedBy = .agent ∧ s.decision.ruleId = none) := by
  constructor
  · rintro h ⟨hblocks, read, category, tag, hread, hcategory, hmemo⟩
    obtain ⟨hdeleted, ⟨seen, hseen⟩, hlive⟩ := readBack_eq_some hfind hread
    -- the run that reads its own write back
    let decision := foldDecision text sig.receipt read 0
    let inputs : ConvergeInputs :=
      { candidates := [], interpretRevision := fun _ => { decision := .memoOnly }, before
        after := { getTransaction := fun _ => some (live.patched (toPatch decision))
                   listTransactions := [] }
        now := 0 }
    obtain ⟨hwrite, hrest, hback⟩ := h inputs rfl
    have hplan : convergePlan text digest s.core.snapshot (.receipt sig) (some s.decision) inputs
        = .ok (.write decision) :=
      convergePlan_receipt_iff.2 ⟨hblocks, read, category, tag, hread, hcategory, hmemo, rfl⟩
    have hafter : inputs.after.readBack text s.core.snapshot.ynabId
        = .ok (some (targetOf decision)) := by
      obtain ⟨seen', hseen'⟩ := toSnapshot_posted hseen (.refl (live.patched (toPatch decision)))
      rw [← endState_folded hlive hcategory sig.receipt 0]
      exact readBack_of_toSnapshot rfl hdeleted hseen'
    have hconverge := converge_of_read_back hplan rfl hafter
    obtain ⟨tr, o, htr, hnext⟩ := hback decision hconverge
    obtain ⟨hby, hrule⟩ := hrest _ tr o hconverge htr hnext
    have ho := decision_of_reapplied htr hnext
    rw [ho] at hby hrule
    -- what the transaction rests in is approved
    have happroved : read.approved = true := by
      have hcommitted := o.committed.approved
      rw [ho] at hcommitted
      exact hcommitted
    rw [(endState_category hlive hcategory).2.2] at happroved
    exact ⟨(foldDecision_memoOnly_iff hlive hcategory sig.receipt 0).1 (hwrite decision hplan),
      happroved, hby.symm, hrule.symm⟩
  · rintro h inputs rfl
    refine ⟨fun decision hplan => ?_, fun outcome tr o hconverge htr hnext => ?_,
      fun decision hconverge => ?_⟩
    · obtain ⟨hblocks, read, category, tag, hread, hcategory, hmemo, rfl⟩ :=
        convergePlan_receipt_iff.1 hplan
      obtain ⟨-, -, hlive⟩ := readBack_eq_some hfind hread
      have hflag := (h ⟨hblocks, read, category, tag, hread, hcategory, hmemo⟩).1
      exact (foldDecision_memoOnly_iff hlive hcategory sig.receipt inputs.now).2 hflag
    · rcases rests_in hconverge htr hnext with hsame | ⟨decision, hplan, hdecision⟩
      · rw [hsame]
        exact ⟨rfl, rfl⟩
      · obtain ⟨hblocks, read, category, tag, hread, hcategory, hmemo, rfl⟩ :=
          convergePlan_receipt_iff.1 hplan
        obtain ⟨-, -, hby, hrule⟩ := h ⟨hblocks, read, category, tag, hread, hcategory, hmemo⟩
        rw [hdecision, hby, hrule]
        exact ⟨rfl, rfl⟩
    · obtain ⟨target, hfolds⟩ := converge_folds hconverge
      obtain ⟨hblocks, read, category, tag, hread, hcategory, hmemo, rfl⟩ :=
        convergePlan_receipt_iff.1 (hfolds.plan (some s.decision))
      obtain ⟨-, -, hlive⟩ := readBack_eq_some hfind hread
      obtain ⟨-, happroves, -⟩ := h ⟨hblocks, read, category, tag, hread, hcategory, hmemo⟩
      have happroved : read.approved = true := by
        rw [(endState_category hlive hcategory).2.2]
        exact happroves
      exact reapplied_rests now policy sig s happroved hcategory

end law

/-! ## Apples folded into a café charge -/

/-- The café charge as its owner filed it. -/
def cafeFiled : WireTransaction :=
  { id := "t1", accountId := "checking", date := 739000, amount := -12500, approved := true,
    payeeName := some "Corner Cafe", categoryId := some "dining" }

def cafeBackend (wire : WireTransaction) : YnabBackend :=
  { getTransaction := fun _ => some wire, listTransactions := [] }

/-- The run that folds the receipt in and reads its own write back. -/
def cafeFold : ConvergeInputs where
  candidates := []
  interpretRevision _ := { decision := .noChange }
  before := cafeBackend cafeFiled
  after := cafeBackend { cafeFiled with memo := some "apples", flagColor := some "purple" }
  now := 1

/-- The fold sets the flag of a charge its owner decided, and the charge then rests in a decision of
the agent. -/
theorem fold_flags_and_disowns :
    Reachable defaultPolicy (.opened cafeOpen) ∧
    ¬ FoldsMemoOnly PyText.ascii id 1 defaultPolicy cafeOpen marketReceipt (cafeBackend cafeFiled)
      cafeFiled ∧
    ∃ decision tr o, convergePlan PyText.ascii id cafeOpen.core.snapshot (.receipt marketReceipt)
        (some cafeOpen.decision) cafeFold = .ok (.write decision) ∧
      (cafeFiled.patched (toPatch decision)).flagColor = some "purple" ∧
      converge PyText.ascii id cafeOpen.core.snapshot (.receipt marketReceipt)
        (some cafeOpen.decision) cafeFold = .ok (.reapplied decision) ∧
      advance 1 defaultPolicy (.revising (cafeOpen.revised marketReceipt))
        (.converged (.reapplied decision)) = .ok tr ∧ tr.next = .opened o ∧
      o.decision.decidedBy = .agent ∧ cafeOpen.decision.decidedBy = .human := by
  refine ⟨cafeOpen_reachable, fun h => ?_, _, _, _, rfl, rfl, rfl, rfl, rfl, rfl, rfl⟩
  obtain ⟨hwrite, -⟩ := h cafeFold rfl
  obtain ⟨memo, hpatched⟩ := hwrite _ rfl
  have hflag := congrArg WireTransaction.flagColor hpatched
  cases hflag

/-- The charge once it has the agent's flag and a memo, resting in a decision of the agent. -/
def cafeNoted : WireTransaction :=
  { cafeFiled with memo := some "lunch", flagColor := some "purple" }

def cafeNotedOpen : Open :=
  { core := { snapshot := cafeSnapshot }
    decision := { allocation := .category "dining" none, memo := some "lunch", approved := true,
                  decidedBy := .agent, decidedAt := 0 }
    committed := committed_of_category rfl rfl }

/-- A receipt that reaches it is folded in, and changes its memo alone. -/
theorem cafe_fold_law :
    advance 1 defaultPolicy (.opened cafeNotedOpen) (.inboundReceived (.receipt marketReceipt))
      = .ok (advanced (.revising (cafeNotedOpen.revised marketReceipt)) [.cancelTimer .archive]) ∧
    FoldWrites PyText.ascii cafeNotedOpen.core.snapshot marketReceipt (cafeBackend cafeNoted) ∧
    FoldsMemoOnly PyText.ascii id 1 defaultPolicy cafeNotedOpen marketReceipt
      (cafeBackend cafeNoted) cafeNoted := by
  refine ⟨advance_receipt 1 defaultPolicy cafeNotedOpen marketReceipt,
    ⟨rfl, _, "dining", none, rfl, rfl, by decide⟩, ?_⟩
  refine (fold_memo_only_iff id 1 defaultPolicy cafeNotedOpen marketReceipt rfl).2 fun _ => ?_
  exact ⟨rfl, rfl, rfl, rfl⟩

end YnabAgent
