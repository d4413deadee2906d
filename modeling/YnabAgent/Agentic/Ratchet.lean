import YnabAgent.Agentic.Enrich
import YnabAgent.Domain.StateMachine

/-!
# The one-way ratchet of the review

The gate alone authorizes an auto-apply, and the decision is built from the one blessed rule that
applies. The model's suggestion is read by the review, which can hold the auto-apply back, and by
nothing else: two models that both let it through let the same decision through
(`autoApply_ratchet`).
-/

namespace YnabAgent

section ratchet
variable {text : PyText} {snapshot : YnabSnapshot} {candidates : List CandidateCategory}
  {rules : List Rule} {counters : AutoActionCounters} {now : Datetime}

/-- The rules that may gate: blessed, and matching the transaction. -/
def blessedMatches (text : PyText) (rules : List Rule) (snapshot : YnabSnapshot) : List Rule :=
  (matchingRules text rules snapshot).filter fun rule => decide rule.Blessed

theorem mem_of_blessedMatches {rule : Rule} (h : blessedMatches text rules snapshot = [rule]) :
    rule ∈ rules := by
  have hmem : rule ∈ blessedMatches text rules snapshot := by
    rw [h]; exact List.mem_singleton_self _
  exact List.mem_of_mem_filter (List.mem_of_mem_filter hmem)

/-- An `AUTO` ruling names the one blessed rule that applies. -/
theorem evaluateGate_auto {policy : FloorPolicy}
    (h : (evaluateGate text snapshot rules counters policy).verdict = .auto) :
    ∃ rule, blessedMatches text rules snapshot = [rule] ∧
      (evaluateGate text snapshot rules counters policy).ruleId = some rule.id := by
  unfold evaluateGate at h ⊢
  simp only at h ⊢
  split at h
  · cases h
  · rename_i hfloor
    rw [if_neg hfloor]
    split at h
    · cases h
    · rename_i hmatched
      rw [if_neg hmatched]
      split at h
      · rename_i rule hrule
        exact ⟨rule, hrule, rfl⟩
      · cases h
      · cases h

/-- With distinct ids the gate's rule is the one its id finds. -/
theorem find?_of_blessedMatches (hids : (rules.map Rule.id).Nodup) {rule : Rule}
    (h : blessedMatches text rules snapshot = [rule]) :
    rules.find? (fun r => r.id = rule.id) = some rule :=
  Lib.lookup_of_mem hids (mem_of_blessedMatches h) rfl

/-- An auto-apply was ruled `AUTO`, and its decision is the one its rule builds. -/
theorem decideEnrichment_auto (hids : (rules.map Rule.id).Nodup)
    {propose : EnrichmentRequest → EnrichmentSuggestion} {decision : Decision}
    (h : decideEnrichment text propose snapshot candidates rules counters now
      = .ok (.autoApply decision)) :
    (evaluateGate text snapshot rules counters cautiousFloor).verdict = .auto ∧
      ∃ rule, blessedMatches text rules snapshot = [rule] ∧
        decision = buildAutoDecision rule snapshot now := by
  obtain ⟨hauto, -⟩ := decideEnrichment_autoApply h
  obtain ⟨rule, hrule, hid⟩ := evaluateGate_auto hauto
  refine ⟨hauto, rule, hrule, ?_⟩
  unfold decideEnrichment at h
  simp only [hauto, hid, Option.bind_some, find?_of_blessedMatches hids hrule] at h
  split at h
  · cases h; rfl
  · obtain ⟨suggestion, -, h⟩ := Lib.bind_eq_ok h
    split at h
    · cases h; rfl
    · cases h

/-- The auto-applied state of a ruled decision constructs, and is where the ruling leads. -/
theorem advance_autoApply {s : Enriching} {rule : Rule} {decision : Decision}
    (hdecision : decision = buildAutoDecision rule s.core.snapshot now) (time : Datetime)
    (policy : LifecyclePolicy) :
    ∃ (a : AutoApplied) (tr : Transition), a.core = s.core ∧ a.decision = decision ∧
      advance time policy (.enriching s) (.enriched (.autoApply decision)) = .ok tr ∧
      tr.next = .autoApplied a := by
  have hcommitted : Committed s.core decision := by
    rw [hdecision]
    exact buildAutoDecision_committed rule s.core now
  have hagent : decision.decidedBy = .agent := by rw [hdecision]; rfl
  have hmake := AutoApplied.make_eq_ok hagent hcommitted
  refine ⟨⟨s.core, decision, hagent, hcommitted⟩,
    advanced (.autoApplied ⟨s.core, decision, hagent, hcommitted⟩)
      [.commitToYnab decision, .recordAutoAction s.core.snapshot.ynabId], rfl, rfl, ?_, rfl⟩
  simp only [advance, fromEnriching, hmake]
  rfl

/-- **The model can only hold an auto-apply back.** An auto-apply was ruled `AUTO`; its decision is
the one the unique blessed matching rule builds, whatever the model said: under another model the
step yields that same decision, or asks the human. The state it leads to constructs, approved and
decided by the agent, under the rule's id, with split lines that sum to the amount. -/
theorem autoApply_ratchet (hids : (rules.map Rule.id).Nodup)
    (propose₁ propose₂ : EnrichmentRequest → EnrichmentSuggestion) {decision : Decision}
    (h : decideEnrichment text propose₁ snapshot candidates rules counters now
      = .ok (.autoApply decision)) :
    (evaluateGate text snapshot rules counters cautiousFloor).verdict = .auto ∧
    (∃ rule, blessedMatches text rules snapshot = [rule] ∧
      decision = buildAutoDecision rule snapshot now ∧ decision.ruleId = some rule.id) ∧
    (∀ outcome,
      decideEnrichment text propose₂ snapshot candidates rules counters now = .ok outcome →
      outcome = .autoApply decision ∨ ∃ proposal, outcome = .askHuman proposal) ∧
    decision.approved = true ∧ decision.decidedBy = .agent ∧
    (∀ split, decision.allocation = .split split → split.total = snapshot.amount) ∧
    ∀ (time : Datetime) (policy : LifecyclePolicy) (s : Enriching), s.core.snapshot = snapshot →
      ∃ (a : AutoApplied) (tr : Transition), a.core = s.core ∧ a.decision = decision ∧
        advance time policy (.enriching s) (.enriched (.autoApply decision)) = .ok tr ∧
        tr.next = .autoApplied a := by
  obtain ⟨hauto, rule, hrule, hdecision⟩ := decideEnrichment_auto hids h
  refine ⟨hauto, ⟨rule, hrule, hdecision, by rw [hdecision]; rfl⟩, ?_, by rw [hdecision]; rfl,
    by rw [hdecision]; rfl, ?_, ?_⟩
  · intro outcome hother
    cases outcome with
    | autoApply other =>
      obtain ⟨-, rule', hrule', hother⟩ := decideEnrichment_auto hids hother
      rw [hrule] at hrule'
      cases hrule'
      exact .inl (by rw [hother, hdecision])
    | askHuman proposal => exact .inr ⟨proposal, rfl⟩
  · intro split hsplit
    rw [hdecision] at hsplit
    exact resolveAllocation_total hsplit
  · intro time policy s hs
    subst hs
    exact advance_autoApply hdecision time policy

end ratchet

/-! ## A doubting model -/

/-- A supermarket charge, with a blessed rule for its payee. -/
def marketSnapshot : YnabSnapshot :=
  { ynabId := "t1", account := "checking", payee := "Market", amount := ⟨-60000⟩,
    txnDate := 739000 }

def marketRule : Rule where
  id := "r1"
  «match» := { payeePattern := "Market" }
  action := { allocation := .category "groceries" none }
  trust := .trusted
  source := .humanExplicit

/-- The model names the rule's category. -/
def agreeing (_ : EnrichmentRequest) : EnrichmentSuggestion :=
  { categoryId := "groceries", confidence := .high, rationale := "food" }

/-- The model names another category. -/
def doubting (_ : EnrichmentRequest) : EnrichmentSuggestion :=
  { categoryId := "gifts", confidence := .low, rationale := "a present" }

def marketCandidates : List CandidateCategory :=
  [⟨"groceries", "Groceries"⟩, ⟨"gifts", "Gifts"⟩]

/-- The doubting model turns the auto-apply the other lets through into a question. -/
theorem market_ratchet :
    decideEnrichment PyText.ascii agreeing marketSnapshot marketCandidates [marketRule] {} 0
      = .ok (.autoApply (buildAutoDecision marketRule marketSnapshot 0)) ∧
    ∀ outcome,
      decideEnrichment PyText.ascii doubting marketSnapshot marketCandidates [marketRule] {} 0 =
        .ok outcome →
      outcome = .autoApply (buildAutoDecision marketRule marketSnapshot 0) ∨
        ∃ proposal, outcome = .askHuman proposal :=
  ⟨rfl, (autoApply_ratchet (by decide) agreeing doubting rfl).2.2.1⟩

end YnabAgent
