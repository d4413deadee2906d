import YnabAgent.Domain.Transaction
import YnabAgent.Domain.Rule
import YnabAgent.Policy.Floor
import YnabAgent.Policy.Resolve

/-!
# The autonomy gate

Whether a transaction may auto-apply (`policy/gate.py`): the floor first, then the
duplicate guard, then exactly one blessed matching rule.
-/

namespace YnabAgent

inductive GateVerdict
  | auto | ask
  deriving DecidableEq, Repr

structure GateOutcome where
  verdict : GateVerdict
  ruleId : Option RuleId := none
  reason : String := ""
  deriving DecidableEq, Repr

section gate
variable (text : PyText)

def ruleMatches (rule : Rule) (snapshot : YnabSnapshot) : Bool :=
  let m := rule.match
  isInText (text.lower m.payeePattern) (text.lower snapshot.payee) &&
  (match m.account with
    | some account => decide (account = snapshot.account)
    | none => true) &&
  (match m.amountRange with
    | some range => range.contains snapshot.amount
    | none => true) &&
  (match m.itemKeyword with
    | some keyword => isInText (text.lower keyword) (text.lower (snapshot.memo.getD ""))
    | none => true)

def matchingRules (rules : List Rule) (snapshot : YnabSnapshot) : List Rule :=
  rules.filter fun rule => ruleMatches text rule snapshot

def evaluateGate (snapshot : YnabSnapshot) (rules : List Rule) (counters : AutoActionCounters)
    (policy : FloorPolicy) : GateOutcome :=
  let floor := checkFloor (some snapshot.amount) counters policy
  if floor ≠ .allow then { verdict := .ask, reason := "floor: " ++ floor.value }
  else if snapshot.isMatchedImport then
    { verdict := .ask, reason := "matched/duplicate import — accept by hand (SPEC §13)" }
  else
    match (matchingRules text rules snapshot).filter fun rule => decide rule.Blessed with
    | [rule] =>
      { verdict := .auto, ruleId := some rule.id, reason := "single blessed rule clearly applies" }
    | [] => { verdict := .ask, reason := "no blessed rule applies" }
    | _ => { verdict := .ask, reason := "conflicting blessed rules" }

/-- An `AUTO` ruling passed the floor. -/
theorem checkFloor_of_auto {snapshot : YnabSnapshot} {rules : List Rule}
    {counters : AutoActionCounters} {policy : FloorPolicy}
    (h : (evaluateGate text snapshot rules counters policy).verdict = .auto) :
    checkFloor (some snapshot.amount) counters policy = .allow := by
  by_contra hne
  unfold evaluateGate at h
  rw [if_pos hne] at h
  cases h

end gate

/-- The gating rule's action, resolved into an approved agent decision. -/
def buildAutoDecision (rule : Rule) (snapshot : YnabSnapshot) (decidedAt : Datetime) : Decision :=
  { allocation := resolveAllocation rule.action.allocation snapshot.amount
    memo := rule.action.memoTemplate
    approved := true
    decidedBy := .agent
    decidedAt
    ruleId := some rule.id }

/-- The decision a rule builds over a snapshot is committed on any core with that snapshot. -/
theorem buildAutoDecision_committed (rule : Rule) (core : TxnCore) (decidedAt : Datetime) :
    Committed core (buildAutoDecision rule core.snapshot decidedAt) :=
  ⟨rfl, fun h => resolveAllocation_total h⟩

end YnabAgent
