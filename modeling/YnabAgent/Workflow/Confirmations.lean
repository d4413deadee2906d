import YnabAgent.Agentic.Ratchet
import YnabAgent.Workflow.Admissible

/-!
# What confirms a rule

A run feeds rule learning a confirmation when an answer is verified and when a revision is
re-applied without changing the allocation. `confirm_carries`: on every run whose events the driver
builds, the decision it carries is the human's, or is a receipt folded into the live category.
-/

namespace YnabAgent

/-! ## Driven runs -/

section driven
variable (text : PyText) {δ : Type} [DecidableEq δ] (digest : TargetState → δ)
  (ynabId : YnabTransactionId)

/-- The event of the step is one the driver builds in that state. -/
def Beat.Driven : Beat → Prop
  | .fed pre now event _ => ∃ input,
      driverEvent text digest ynabId now pre input = .ok (some event)
  | .stamped _ => True

/-- Feed the events of the inputs in order. -/
def runInputs (policy : LifecyclePolicy) :
    Transaction → List (Datetime × DriverInput) → Option (List Beat × Transaction)
  | txn, [] => some ([], txn)
  | txn, (now, input) :: rest =>
    match driverEvent text digest ynabId now txn input with
    | .ok (some event) =>
      match advance now policy txn event with
      | .ok tr => (runInputs policy tr.next rest).map fun r =>
          (.fed txn now event tr.effects :: r.1, r.2)
      | .error _ => none
    | _ => none

variable {text digest ynabId} {policy : LifecyclePolicy}

theorem runInputs_run {inputs : List (Datetime × DriverInput)} :
    ∀ {txn last : Transaction} {beats : List Beat},
      runInputs text digest ynabId policy txn inputs = some (beats, last) →
      TxnRun policy txn beats last ∧ ∀ beat ∈ beats, beat.Driven text digest ynabId := by
  induction inputs with
  | nil =>
    intro txn last beats h
    cases h
    exact ⟨.nil txn, by simp⟩
  | cons next rest ih =>
    intro txn last beats h
    obtain ⟨now, input⟩ := next
    unfold runInputs at h
    split at h
    · rename_i event hevent
      split at h
      · rename_i tr hadv
        obtain ⟨⟨beats', last'⟩, hrest, h⟩ := Option.map_eq_some_iff.1 h
        cases h
        obtain ⟨hrun, hdriven⟩ := ih hrest
        refine ⟨.cons (.fed hadv) hrun, ?_⟩
        intro beat hbeat
        rcases List.mem_cons.1 hbeat with rfl | hbeat
        · exact ⟨input, hevent⟩
        · exact hdriven beat hbeat
      · cases h
    · cases h

/-! ## The decisions the driver's events carry -/

theorem driverEvent_answer {now : Datetime} {s : AwaitingHuman} {input : DriverInput}
    {decision : Decision}
    (h : driverEvent text digest ynabId now (.awaitingHuman s) input
      = .ok (some (.answerReceived decision))) : decision.decidedBy = .human := by
  cases input with
  | interpreted inputs =>
    obtain ⟨outcome, houtcome, h⟩ := Lib.map_eq_ok h
    cases outcome with
    | answer answer =>
      cases h
      obtain ⟨category, memo, rfl⟩ := interpretInbound_answer houtcome
      rfl
    | clarify question => cases h
  | _ => cases h

theorem driverEvent_converged {now : Datetime} {s : Revising} {input : DriverInput}
    {outcome : ConvergeOutcome}
    (h : driverEvent text digest ynabId now (.revising s) input = .ok (some (.converged outcome))) :
    ∃ inputs, input = .converged inputs ∧
      converge text digest s.core.snapshot s.instruction s.prior inputs = .ok outcome := by
  cases input with
  | converged inputs =>
    obtain ⟨outcome', houtcome, h⟩ := Lib.map_eq_ok h
    cases h
    exact ⟨inputs, rfl, houtcome⟩
  | _ => cases h

end driven

/-! ## Confirmations -/

/-- A written answer is the human's. -/
def HumanApplied : Transaction → Prop
  | .applied s => s.decision.decidedBy = .human
  | _ => True

section confirm
variable (text : PyText) {δ : Type} [DecidableEq δ] (digest : TargetState → δ)
  (ynabId : YnabTransactionId)

/-- The step re-applies the receipt whose fold built its event: the converge run read one category
in YNAB, wrote it back with the receipt's memo, and read that back as written. The category is that
of the decision the run revises, if there is one. -/
def Beat.FoldsReceipt (decision : Decision) : Beat → Prop
  | .fed (.revising s) now event _ => event = .converged (.reapplied decision) ∧
      ∃ sig inputs live category tag, s.instruction = .receipt sig ∧
        driverEvent text digest ynabId now (.revising s) (.converged inputs) = .ok (some event) ∧
        FoldsInto text digest s.core.snapshot sig.receipt inputs live decision ∧
        live.allocation = .category category tag ∧ decision.allocation = live.allocation ∧
        decision.memo = some (receiptMemo text sig.receipt live.memo) ∧
        ∀ p, s.prior = some p → p.allocation = decision.allocation
  | _ => False

/-- Each confirmation of the step carries the human's decision, or a folded receipt. -/
def Beat.Confirms (beat : Beat) : Prop :=
  ∀ feed, .feedRuleLearning feed ∈ beat.effects → feed.event = .confirm →
    ∃ decision, feed.decision = some decision ∧
      (decision.decidedBy = .human ∨ beat.FoldsReceipt text digest ynabId decision)

variable {text digest ynabId} {policy : LifecyclePolicy} {now : Datetime}
  {txn next : Transaction} {event : LifecycleEvent} {effects : List Effect}

theorem HumanApplied.withThread (h : HumanApplied txn) (threadId : ThreadId) :
    HumanApplied (txn.withThread threadId) := by
  cases txn with
  | applied s => exact h
  | _ => trivial

/-- An answer is applied as it was interpreted. -/
theorem Move.humanApplied (hm : Move now policy txn event next effects) {input : DriverInput}
    (hevent : driverEvent text digest ynabId now txn input = .ok (some event))
    (h : HumanApplied txn) : HumanApplied next := by
  cases hm with
  | stay => exact h
  | answer s decision a hcore hdecision =>
    change a.decision.decidedBy = .human
    rw [hdecision]
    exact driverEvent_answer hevent
  | _ => trivial

/-- A re-application that is no correction leaves the allocation of its prior alone. -/
theorem allocation_of_confirm {s : Revising} {decision : Decision}
    (h : (reapplyFeed s decision).event = .confirm) :
    (reapplyFeed s decision).decision = some decision ∧
      ∀ p, s.prior = some p → p.allocation = decision.allocation := by
  unfold reapplyFeed at h ⊢
  split at h
  · cases h
  · rename_i hsame
    rw [if_neg hsame]
    refine ⟨rfl, fun p hp => ?_⟩
    simpa [isCorrection, hp] using hsame

theorem Move.confirms (hm : Move now policy txn event next effects) {input : DriverInput}
    (hevent : driverEvent text digest ynabId now txn input = .ok (some event))
    (h : HumanApplied txn) : (Beat.fed txn now event effects).Confirms text digest ynabId := by
  intro feed hfeed hconfirm
  simp only [Beat.effects] at hfeed
  cases hm with
  | verified hw o hcore hdecision =>
    cases hw with
    | auto s => simp [writeFeed] at hfeed
    | answered s =>
      simp only [writeFeed, List.cons_append, List.nil_append, List.mem_cons,
        Effect.feedRuleLearning.injEq, reduceCtorEq, List.not_mem_nil, or_self, or_false] at hfeed
      exact ⟨s.decision, by rw [hfeed], .inl h⟩
  | reapply s decision o hcore hdecision =>
    simp only [List.mem_cons, Effect.feedRuleLearning.injEq, reduceCtorEq, List.not_mem_nil,
      or_self, or_false] at hfeed
    rw [hfeed] at hconfirm
    obtain ⟨hcarried, hprior⟩ := allocation_of_confirm hconfirm
    refine ⟨decision, by rw [hfeed]; exact hcarried, ?_⟩
    obtain ⟨inputs, rfl, hconverge⟩ := driverEvent_converged hevent
    rcases (converge_reapplied hconverge).2 with ⟨-, hhuman⟩ | ⟨sig, -, hsig, -⟩
    · exact .inl hhuman
    · rw [hsig] at hconverge
      obtain ⟨live, hfolds⟩ := converge_folds hconverge
      obtain ⟨⟨category, tag, hlive⟩, halloc, -, hmemo⟩ := hfolds.keeps
      exact .inr ⟨rfl, sig, inputs, live, category, tag, hsig, hevent, hfolds, hlive, halloc, hmemo,
        hprior⟩
  | override =>
    simp only [List.mem_cons, Effect.feedRuleLearning.injEq, reduceCtorEq, List.not_mem_nil,
      or_self, or_false] at hfeed
    rw [hfeed] at hconfirm
    cases hconfirm
  | overrideArchive =>
    simp only [List.mem_cons, Effect.feedRuleLearning.injEq, reduceCtorEq, List.not_mem_nil,
      or_self, or_false] at hfeed
    rw [hfeed] at hconfirm
    cases hconfirm
  | hold s snapshot => unfold replayPending at hfeed; split at hfeed <;> simp at hfeed
  | materialize s snapshot => unfold replayPending at hfeed; split at hfeed <;> simp at hfeed
  | askHuman s proposal => unfold proposalEffect at hfeed; split at hfeed <;> simp at hfeed
  | _ => simp at hfeed

/-- **What confirms a rule.** On every run whose events the driver builds, each confirmation fed to
rule learning carries a decision of the human's, or is a receipt folded into the live category. -/
theorem confirm_carries {threadId : Option ThreadId} {beats : List Beat}
    (hrun : TxnRun policy (born ynabId threadId) beats txn)
    (hdriven : ∀ beat ∈ beats, beat.Driven text digest ynabId) :
    ∀ beat ∈ beats, beat.Confirms text digest ynabId := by
  intro beat hbeat
  obtain ⟨before, after, hbeats⟩ := List.append_of_mem hbeat
  have hreached := hrun.each (I := fun _ txn => HumanApplied txn) hdriven trivial
    (fun hs hbeat hstep => by
      cases hstep with
      | fed hadv =>
        obtain ⟨input, hevent⟩ := hbeat
        exact (advance_move hadv).humanApplied hevent hs
      | stamped _ threadId => exact hs.withThread threadId) hbeats
  obtain ⟨s, t, hs, hstep⟩ := hreached
  have hbeat := hdriven beat hbeat
  cases hstep with
  | fed hadv =>
    obtain ⟨input, hevent⟩ := hbeat
    exact (advance_move hadv).confirms hevent hs
  | stamped _ threadId => exact fun feed hfeed => by cases hfeed

end confirm

/-! ## A receipt for a charge that was filed by rule -/

/-- The supermarket charge in YNAB. -/
def marketWire (category memo : Option String) : WireTransaction :=
  { id := "t1", accountId := "checking", date := 739000, amount := -60000
    approved := category.isSome, memo, payeeName := some "Market", categoryId := category }

def marketBackend (category memo : Option String) : YnabBackend :=
  { getTransaction := fun _ => some (marketWire category memo), listTransactions := [] }

def marketReceipt : ReceiptSignal :=
  { receiptId := "m1"
    receipt := { id := "m1", parkedAt := 0, lineItems := [{ description := "apples" }] } }

/-- The charge is auto-applied under its rule; then its receipt is folded in. -/
def marketInputs : List (Datetime × DriverInput) :=
  [(0, .fetched (marketBackend none none)),
    (0, .enriched { candidates := marketCandidates, propose := agreeing, rules := [marketRule],
                    counters := {}, now := 0 }),
    (0, .readBack (marketBackend (some "groceries") none)),
    (1, .inbound (.receipt marketReceipt)),
    (1, .converged { candidates := marketCandidates
                     interpretRevision := fun _ => { decision := .noChange }
                     before := marketBackend (some "groceries") none
                     after := marketBackend (some "groceries") (some "apples"), now := 1 })]

theorem market_carries :
    ∃ beats txn, TxnRun defaultPolicy (born "t1" none) beats txn ∧ beats.length = 5 ∧
      ∀ beat ∈ beats, beat.Confirms PyText.ascii id "t1" := by
  have hinputs : ∃ beats txn, runInputs PyText.ascii id "t1" defaultPolicy (born "t1" none)
      marketInputs = some (beats, txn) ∧ beats.length = 5 := ⟨_, _, rfl, rfl⟩
  obtain ⟨beats, txn, hinputs, hlength⟩ := hinputs
  obtain ⟨hrun, hdriven⟩ := runInputs_run hinputs
  exact ⟨beats, txn, hrun, hlength, confirm_carries hrun hdriven⟩

/-- The receipt confirms the rule with a decision nobody made but the agent. -/
theorem agent_confirms :
    ∃ beats txn, TxnRun defaultPolicy (born "t1" none) beats txn ∧
      (∀ beat ∈ beats, beat.Driven PyText.ascii id "t1") ∧
      ∃ beat ∈ beats, ∃ feed decision, .feedRuleLearning feed ∈ beat.effects ∧
        feed.event = .confirm ∧ feed.decision = some decision ∧ decision.decidedBy = .agent := by
  have hinputs : ∃ before pre now event feed decision rest txn,
      runInputs PyText.ascii id "t1" defaultPolicy (born "t1" none) marketInputs =
        some (before ++ [.fed pre now event (.feedRuleLearning feed :: rest)], txn) ∧
      feed.event = .confirm ∧ feed.decision = some decision ∧ decision.decidedBy = .agent :=
    ⟨[_, _, _, _], _, _, _, _, _, _, _, rfl, rfl, rfl, rfl⟩
  obtain ⟨before, pre, now, event, feed, decision, rest, txn, hinputs, hfeed⟩ := hinputs
  obtain ⟨hrun, hdriven⟩ := runInputs_run hinputs
  exact ⟨_, txn, hrun, hdriven, .fed pre now event (.feedRuleLearning feed :: rest), by simp, feed,
    decision, List.mem_cons_self, hfeed⟩

end YnabAgent
