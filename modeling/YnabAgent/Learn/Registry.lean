import YnabAgent.Learn.Transitions
import Mathlib.Data.List.Dedup
import Mathlib.Data.List.Sort

/-!
# The rule registry

The durable rule table with its bounded audit tail, and the folds of its signals
(`learn/registry.py`).
-/

namespace YnabAgent

/-- How many recent changes the registry keeps. -/
def auditCap : Nat := 200

structure RegistryAuditEntry where
  «at» : Datetime
  payee : String
  change : RuleChange
  deriving DecidableEq

structure RegistryState where
  rules : List Rule := []
  audit : List RegistryAuditEntry := []
  deriving DecidableEq

namespace RegistryState

/-- The audit tail with the entries appended, capped. -/
def appendedAudit (state : RegistryState) (entries : List RegistryAuditEntry) :
    List RegistryAuditEntry :=
  let audit := state.audit ++ entries
  audit.drop (audit.length - auditCap)

def recordLearning (state : RegistryState) (feed : FeedRuleLearning) (now : Datetime)
    (nextId : RuleId) : RegistryState :=
  match planRuleUpdate now nextId state.rules feed with
  | none => state
  | some outcome =>
    { rules := outcome.rules, audit := state.appendedAudit [⟨now, feed.payee, outcome.change⟩] }

def blessRule (state : RegistryState) (command : ExplicitCommand) (now : Datetime)
    (nextId : RuleId) : RegistryState :=
  let outcome := applyLearning now nextId state.rules (.explicit command) kDefault
  { rules := outcome.rules
    audit := state.appendedAudit [⟨now, command.match.payeePattern, outcome.change⟩] }

end RegistryState

/-- A learned rule that reached `TRUSTED` by consistency and is not blessed. -/
def Rule.Eligible (rule : Rule) : Prop :=
  rule.trust = .trusted ∧ rule.source = .learned

instance (rule : Rule) : Decidable rule.Eligible := by
  unfold Rule.Eligible; infer_instance

namespace RegistryState

def eligibleForBless (state : RegistryState) : List Rule :=
  state.rules.filter fun rule => decide rule.Eligible

/-- Eligible rules whose one-time offer has not been sent. -/
def pendingOffers (state : RegistryState) : List Rule :=
  state.eligibleForBless.filter fun rule => rule.offeredAt.isNone

def stampOffered (now : Datetime) (rule : Rule) : Rule :=
  if rule.offeredAt = none then { rule with offeredAt := some now } else rule

def markOffered (state : RegistryState) (ruleId : RuleId) (now : Datetime) : RegistryState :=
  { state with rules := Lib.updateAt Rule.id ruleId (stampOffered now) state.rules }

/-- Bless an existing eligible rule; a rule that is gone or not eligible any more is left alone. -/
def blessById (state : RegistryState) (ruleId : RuleId) (now : Datetime) : RegistryState :=
  match Lib.lookup Rule.id ruleId state.rules with
  | some target =>
    if target.Eligible then
      let updated : Rule := { target with source := .humanExplicit, lastConfirmedAt := some now }
      { rules := Lib.updateAt Rule.id ruleId (fun _ => updated) state.rules
        audit := state.appendedAudit
          [⟨now, target.match.payeePattern, ⟨.blessed, ruleId, updated.trust⟩⟩] }
    else state
  | none => state

variable (text : PyText)

def rulesForPayee (state : RegistryState) (payee : String) : List Rule :=
  state.rules.filter fun rule =>
    isInText (text.lower rule.match.payeePattern) (text.lower payee)

/-- The ids of the blessed rules a revocation strips. -/
def revokeTargets (state : RegistryState) (payee : String) : List RuleId :=
  (((state.rulesForPayee text payee).filter fun rule => rule.source = .humanExplicit).map
    Rule.id).dedup

def revokeRule (rule : Rule) : Rule :=
  { rule with source := .learned, trust := .confirmed }

def revokePayee (state : RegistryState) (payee : String) (now : Datetime) : RegistryState :=
  let targets := state.revokeTargets text payee
  if targets = [] then state
  else
    { rules := state.rules.map fun rule => if rule.id ∈ targets then revokeRule rule else rule
      audit := state.appendedAudit
        ((targets.insertionSort (· ≤ ·)).map fun id => ⟨now, payee, ⟨.revoked, id, .confirmed⟩⟩) }

end RegistryState

end YnabAgent
