import YnabAgent.Lib.Basic
import YnabAgent.Domain.Lifecycle
import YnabAgent.Domain.Rule

/-!
# The rule-learning transitions

One learning event folded into the rule table (`learn/events.py`, `learn/transitions.py`), and the
adapter from the lifecycle's feed to the event (`learn/actions.py`, `learn/handler.py`).
-/

namespace YnabAgent

/-! ## Trust -/

/-- Consistent confirmations a learned rule needs to reach `TRUSTED`. -/
def kDefault : Nat := 3

def trustForHits (hits kThreshold : Nat) : TrustState :=
  if hits = 0 then .suggested else if kThreshold ≤ hits then .trusted else .confirmed

theorem le_of_trustForHits {hits k : Nat} (h : trustForHits hits k = .trusted) : k ≤ hits := by
  unfold trustForHits at h
  split at h
  · cases h
  · split at h
    · assumption
    · cases h

/-! ## Events and outcomes -/

structure ConfirmCategory where
  «match» : RuleMatch
  action : RuleAction
  ruleId : Option RuleId := none

structure CorrectDecision where
  «match» : RuleMatch
  action : RuleAction
  priorRuleId : Option RuleId := none

structure ExplicitCommand where
  «match» : RuleMatch
  action : RuleAction
  deriving DecidableEq

inductive LearningEvent
  | confirm (event : ConfirmCategory)
  | correct (event : CorrectDecision)
  | explicit (event : ExplicitCommand)

inductive RuleChangeKind
  | created | strengthened | rewritten | blessed | revoked
  deriving DecidableEq, Repr

structure RuleChange where
  kind : RuleChangeKind
  ruleId : RuleId
  trust : TrustState
  deriving DecidableEq

structure LearningOutcome where
  rules : List Rule
  change : RuleChange

/-! ## The rule table -/

def findRule (rules : List Rule) (ruleId : Option RuleId) : Option Rule :=
  ruleId.bind fun id => Lib.lookup Rule.id id rules

/-- The first rule of exactly this match and action. -/
def findEquivalent (rules : List Rule) (m : RuleMatch) (action : RuleAction) : Option Rule :=
  rules.find? fun r => decide (r.match = m ∧ r.action = action)

def replaceRule (rules : List Rule) (updated : Rule) : List Rule :=
  Lib.updateAt Rule.id updated.id (fun _ => updated) rules

section transitions
variable (now : Datetime) (nextId : RuleId)

/-! ## Confirm -/

/-- The rule a confirmation strengthens: the driver if it encodes the same preference, else an
equivalent rule. -/
def confirmTarget (rules : List Rule) (event : ConfirmCategory) : Option Rule :=
  match (findRule rules event.ruleId).filter fun r => decide (r.action = event.action) with
  | some target => some target
  | none => findEquivalent rules event.match event.action

def confirmSeed (event : ConfirmCategory) (k : Nat) : Rule :=
  { id := nextId, «match» := event.match, action := event.action, trust := trustForHits 1 k,
    hits := 1, lastConfirmedAt := some now, source := .learned }

/-- A blessed rule stays trusted; a learned one earns trust by hits. -/
def strengthen (k : Nat) (target : Rule) : Rule :=
  let hits := target.hits + 1
  { target with
    hits
    trust := if target.source = .humanExplicit then .trusted else trustForHits hits k
    lastConfirmedAt := some now }

def confirm (rules : List Rule) (event : ConfirmCategory) (k : Nat) : LearningOutcome :=
  match confirmTarget rules event with
  | none =>
    let rule := confirmSeed now nextId event k
    { rules := rules ++ [rule], change := ⟨.created, rule.id, rule.trust⟩ }
  | some target =>
    let updated := strengthen now k target
    { rules := replaceRule rules updated, change := ⟨.strengthened, updated.id, updated.trust⟩ }

/-! ## Correct -/

def correctSeed (event : CorrectDecision) : Rule :=
  { id := nextId, «match» := event.match, action := event.action, trust := .suggested, hits := 0,
    lastCorrectedAt := some now, source := .learned }

/-- The driving rule's action is rewritten and its trust starts over; a grant and an offer do not
survive it. -/
def rewrite (action : RuleAction) (target : Rule) : Rule :=
  { target with
    action
    trust := .suggested
    hits := 0
    lastCorrectedAt := some now
    source := .learned
    offeredAt := none }

def correct (rules : List Rule) (event : CorrectDecision) : LearningOutcome :=
  match findRule rules event.priorRuleId with
  | none =>
    let rule := correctSeed now nextId event
    { rules := rules ++ [rule], change := ⟨.created, rule.id, rule.trust⟩ }
  | some target =>
    let updated := rewrite now event.action target
    { rules := replaceRule rules updated, change := ⟨.rewritten, updated.id, updated.trust⟩ }

/-! ## Explicit command -/

def blessSeed (event : ExplicitCommand) : Rule :=
  { id := nextId, «match» := event.match, action := event.action, trust := .trusted, hits := 0,
    lastConfirmedAt := some now, source := .humanExplicit }

def grant (target : Rule) : Rule :=
  { target with trust := .trusted, source := .humanExplicit, lastConfirmedAt := some now }

def bless (rules : List Rule) (event : ExplicitCommand) : LearningOutcome :=
  match findEquivalent rules event.match event.action with
  | none =>
    let rule := blessSeed now nextId event
    { rules := rules ++ [rule], change := ⟨.blessed, rule.id, rule.trust⟩ }
  | some target =>
    let updated := grant now target
    { rules := replaceRule rules updated, change := ⟨.blessed, updated.id, updated.trust⟩ }

def applyLearning (rules : List Rule) (event : LearningEvent) (kThreshold : Nat) :
    LearningOutcome :=
  match event with
  | .confirm event => confirm now nextId rules event kThreshold
  | .correct event => correct now nextId rules event
  | .explicit event => bless now nextId rules event

/-! ## The lifecycle's feed -/

/-- The rule template of a decision; a split is declined. -/
def ruleActionFromDecision (decision : Decision) : Option RuleAction :=
  match decision.allocation with
  | .category category tag =>
    some { allocation := .category category tag, memoTemplate := decision.memo }
  | .split _ => none

/-- The learning event of a feed; `none` when there is nothing to learn. -/
def learningEvent (feed : FeedRuleLearning) : Option LearningEvent :=
  feed.decision.bind fun decision =>
    (ruleActionFromDecision decision).map fun action =>
      let m : RuleMatch := { payeePattern := feed.payee }
      match feed.event with
      | .confirm => .confirm { «match» := m, action, ruleId := decision.ruleId }
      | .correct =>
        .correct { «match» := m, action, priorRuleId := feed.prior.bind (·.ruleId) }

def planRuleUpdate (rules : List Rule) (feed : FeedRuleLearning) : Option LearningOutcome :=
  (learningEvent feed).map fun event => applyLearning now nextId rules event kDefault

end transitions

end YnabAgent
