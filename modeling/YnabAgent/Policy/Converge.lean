import YnabAgent.Domain.Lifecycle
import Mathlib.Data.List.Sort

/-!
# Converge-to-target

The end-state a write converges to, its content hash, the read-after-write verdict and the decision
taken before a write (`policy/converge.py`). The hash of the serialized end-state is a parameter
`digest`; only the canonical order of the split lines is computed.
-/

namespace YnabAgent

/-- The fields a write sets. -/
structure TargetState where
  allocation : ResolvedAllocation
  memo : Option String := none
  approved : Bool := true
  deriving DecidableEq

def targetOf (decision : Decision) : TargetState :=
  { allocation := decision.allocation, memo := decision.memo, approved := decision.approved }

/-- The order of the sort keys `(category, amount, memo)`. -/
def splitLineLe (a b : ResolvedSplitLine) : Prop :=
  a.category < b.category ∨ a.category = b.category ∧
    (a.amount < b.amount ∨ a.amount = b.amount ∧ a.memo.getD "" ≤ b.memo.getD "")

instance : DecidableRel splitLineLe := fun a b => by unfold splitLineLe; infer_instance

/-- Split lines in canonical order; a whole-category target is already canonical. -/
def canonical (target : TargetState) : TargetState :=
  match target.allocation with
  | .split split =>
    { target with
      allocation := .split
        { lines := split.lines.insertionSort splitLineLe
          two_le := by rw [List.length_insertionSort]; exact split.two_le } }
  | .category _ _ => target

inductive PrecommitAction
  | write | noChange | alreadyTarget | diverged
  deriving DecidableEq, Repr

section hash
variable {δ : Type} [DecidableEq δ] (digest : TargetState → δ)

def contentHash (target : TargetState) : δ := digest (canonical target)

def needsWrite (current : Option TargetState) (target : TargetState) : Bool :=
  match current with
  | none => true
  | some current => decide (contentHash digest current ≠ contentHash digest target)

/-- A target without a memo leaves the memo alone, so the memo read back does not count. -/
def classifyVerify (readBack : Option TargetState) (target : TargetState) : VerifyOutcome :=
  match readBack with
  | none => .couldNotConfirm
  | some read =>
    let read := if target.memo = none then { read with memo := none } else read
    if contentHash digest read = contentHash digest target then .match else .diverged

def precommitAction (current : Option TargetState) (target : TargetState)
    (prior : Option TargetState) : PrecommitAction :=
  if !needsWrite digest current target then
    match current, prior with
    | some current, some prior =>
      if contentHash digest current = contentHash digest prior then .noChange else .alreadyTarget
    | _, _ => .alreadyTarget
  else
    match current, prior with
    | some current, some prior =>
      if current.allocation ≠ prior.allocation then .diverged else .write
    | _, _ => .write

end hash

/-- A reconciled or closed-month transaction is not silently edited. -/
def reconciliationBlocks (snapshot : YnabSnapshot) : Bool :=
  snapshot.reconciled || snapshot.monthClosed

end YnabAgent
