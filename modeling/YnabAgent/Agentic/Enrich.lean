import YnabAgent.Domain.Lifecycle
import YnabAgent.Policy.Gate
import YnabAgent.Ynab.Client

/-!
# The enrich step

The gate, then the safety review (`agentic/enrich.py`). The model that proposes a category is a
parameter `propose`; what it returns is checked against the candidates before it is used.
-/

namespace YnabAgent

structure CandidateCategory where
  id : String
  name : String
  deriving DecidableEq

/-- The facts the model reasons over; there is at least one candidate. -/
structure EnrichmentRequest where
  payee : String
  amountDisplay : String
  candidates : List CandidateCategory
  memo : Option String := none
  ruleHint : Option String := none
  nonempty : candidates ≠ []

structure EnrichmentSuggestion where
  categoryId : String
  confidence : Confidence
  rationale : String
  alternatives : List String := []
  deriving DecidableEq

def EnrichmentRequest.make (snapshot : YnabSnapshot) (candidates : List CandidateCategory)
    (ruleHint : Option String) : Except ActivityFailure EnrichmentRequest :=
  if h : candidates ≠ [] then
    .ok { payee := snapshot.payee, amountDisplay := snapshot.amount.display, candidates,
          memo := snapshot.memo, ruleHint, nonempty := h }
  else .error ⟨"ValidationError", "candidates: at least 1 item"⟩

section enrich
variable (text : PyText) (propose : EnrichmentRequest → EnrichmentSuggestion)

/-- An invented category id is an error; invented alternatives are dropped. -/
def validateSuggestion (suggestion : EnrichmentSuggestion) (candidates : List CandidateCategory) :
    Except ActivityFailure EnrichmentSuggestion :=
  let valid := candidates.map (·.id)
  if suggestion.categoryId ∉ valid then
    .error ⟨"ValueError", "model proposed unknown category id "
      ++ text.repr suggestion.categoryId ++ " (not a candidate)"⟩
  else
    .ok { suggestion with alternatives := suggestion.alternatives.filter (· ∈ valid) }

def toProposal (suggestion : EnrichmentSuggestion) : Proposal :=
  { allocation := .category suggestion.categoryId none
    confidence := suggestion.confidence
    rationale := suggestion.rationale
    sources := [{ kind := .model }]
    alternatives := suggestion.alternatives.filter fun alt =>
      alt ≠ "" ∧ alt ≠ suggestion.categoryId }

/-- The single category a rule applies; `none` for a split. -/
def blessedCategoryId (rule : Rule) : Option String :=
  match rule.action.allocation with
  | .category category _ => some category
  | .split _ => none

/-- The name of a candidate; of several with one id, the last. -/
def candidateName (candidates : List CandidateCategory) (id : String) : Option String :=
  (candidates.reverse.find? fun c => c.id = id).map (·.name)

/-- The first matching rule whose category is a candidate, as a hint for the proposing model. -/
def ruleHint (snapshot : YnabSnapshot) (rules : List Rule) (candidates : List CandidateCategory) :
    Option String :=
  (matchingRules text rules snapshot).findSome? fun rule =>
    (blessedCategoryId rule).bind fun category =>
      (candidateName candidates category).map fun name =>
        "past transactions from this payee were filed under '" ++ name ++ "'"

def reviewAutoApply (blessed : String) (suggestion : EnrichmentSuggestion) : ReviewVerdict :=
  if blessed ∈ suggestion.categoryId :: suggestion.alternatives then .proceed else .escalateToHuman

/-- The proposal sent when the review holds an auto-apply back. -/
def escalationProposal (suggestion : EnrichmentSuggestion) (blessed : String) : Proposal :=
  let base := toProposal suggestion
  let alternatives :=
    if blessed ≠ suggestion.categoryId ∧ blessed ∉ base.alternatives then
      blessed :: base.alternatives
    else base.alternatives
  { base with
    alternatives
    rationale := "I'd usually auto-file this payee, but this charge looked "
      ++ "different from the usual — confirming before I apply it." }

/-- The model's suggestion for a request, checked against the candidates. -/
def suggest (snapshot : YnabSnapshot) (candidates : List CandidateCategory)
    (hint : Option String) : Except ActivityFailure EnrichmentSuggestion := do
  let request ← EnrichmentRequest.make snapshot candidates hint
  validateSuggestion text (propose request) candidates

/-- The ASK path: the proposal sees every fact, the matching rules' history included. -/
def askProposal (snapshot : YnabSnapshot) (candidates : List CandidateCategory)
    (rules : List Rule) : Except ActivityFailure EnrichmentOutcome := do
  let suggestion ← suggest text propose snapshot candidates
      (ruleHint text snapshot rules candidates)
  pure (.askHuman (toProposal suggestion))

def decideEnrichment (snapshot : YnabSnapshot) (candidates : List CandidateCategory)
    (rules : List Rule) (counters : AutoActionCounters) (now : Datetime) :
    Except ActivityFailure EnrichmentOutcome :=
  let gate := evaluateGate text snapshot rules counters cautiousFloor
  match gate.verdict, gate.ruleId.bind fun id => rules.find? fun r => r.id = id with
  | .auto, some rule =>
    let decision := buildAutoDecision rule snapshot now
    match blessedCategoryId rule with
    | none => .ok (.autoApply decision)
    | some blessed => do
      -- clean context: the judge never sees the rule's choice
      let suggestion ← suggest text propose snapshot candidates none
      match reviewAutoApply blessed suggestion with
      | .proceed => pure (.autoApply decision)
      | .escalateToHuman => pure (.askHuman (escalationProposal suggestion blessed))
  | _, _ => askProposal text propose snapshot candidates rules

section spec
variable {text propose} {snapshot : YnabSnapshot} {candidates : List CandidateCategory}
  {rules : List Rule} {counters : AutoActionCounters} {now : Datetime}

/-- An auto-apply was ruled `AUTO` and carries the decision of a rule in scope. -/
theorem decideEnrichment_autoApply {decision : Decision}
    (h : decideEnrichment text propose snapshot candidates rules counters now
      = .ok (.autoApply decision)) :
    (evaluateGate text snapshot rules counters cautiousFloor).verdict = .auto ∧
      ∃ rule ∈ rules, decision = buildAutoDecision rule snapshot now := by
  unfold decideEnrichment at h
  simp only at h
  split at h
  · rename_i rule hauto hrule
    obtain ⟨id, -, hfind⟩ := Option.bind_eq_some_iff.1 hrule
    refine ⟨hauto, rule, List.mem_of_find?_eq_some hfind, ?_⟩
    split at h
    · cases h; rfl
    · obtain ⟨suggestion, -, h⟩ := Lib.bind_eq_ok h
      split at h
      · cases h; rfl
      · cases h
  · obtain ⟨suggestion, -, h⟩ := Lib.bind_eq_ok h
    cases h

end spec

end enrich

end YnabAgent
