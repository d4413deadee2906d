import YnabAgent.Domain.Allocation

/-!
# Rules

A `match → action` with a trust state (`domain/rule.py`).
-/

namespace YnabAgent

/-- An inclusive amount band; either bound may be open. -/
structure AmountRange where
  low : Option Money := none
  high : Option Money := none
  ordered : ∀ l ∈ low, ∀ h ∈ high, l ≤ h
  deriving DecidableEq

def AmountRange.contains (range : AmountRange) (amount : Money) : Bool :=
  (match range.low with
    | some low => !decide (amount < low)
    | none => true) &&
  (match range.high with
    | some high => !decide (high < amount)
    | none => true)

structure RuleMatch where
  payeePattern : String
  account : Option AccountId := none
  amountRange : Option AmountRange := none
  itemKeyword : Option String := none
  deriving DecidableEq

structure RuleAction where
  allocation : ProposedAllocation
  memoTemplate : Option String := none
  deriving DecidableEq

structure Rule where
  id : RuleId
  «match» : RuleMatch
  action : RuleAction
  trust : TrustState
  hits : Nat := 0
  lastConfirmedAt : Option Datetime := none
  lastCorrectedAt : Option Datetime := none
  source : RuleSource
  offeredAt : Option Datetime := none
  deriving DecidableEq

/-- A blessed rule: the owner granted it, so the gate may auto-apply it. -/
def Rule.Blessed (rule : Rule) : Prop :=
  rule.trust = .trusted ∧ rule.source = .humanExplicit

instance (rule : Rule) : Decidable rule.Blessed := by
  unfold Rule.Blessed; infer_instance

end YnabAgent
