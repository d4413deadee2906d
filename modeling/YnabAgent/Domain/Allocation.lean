import YnabAgent.Domain.Values
import Mathlib.Algebra.BigOperators.Group.List.Basic
import Mathlib.Algebra.Ring.Int.Defs
import Mathlib.Algebra.Ring.Nat

/-!
# Allocations

How an amount is assigned to categories (`domain/allocations.py`): one category or a split, as a
template with relative shares (`ProposedAllocation`) or with concrete amounts
(`ResolvedAllocation`). The validators of the source are the fields of the structures, so a split
with one line, or with percents that do not partition the remainder, is not a value.
-/

namespace YnabAgent

/-! ## Templates -/

/-- A whole-number percent of the distributable remainder. -/
structure PercentShare where
  percent : Nat
  one_le : 1 ≤ percent
  le_hundred : percent ≤ 100
  deriving DecidableEq

inductive ShareSpec
  | percent (share : PercentShare)
  | fixed (amount : Money)
  deriving DecidableEq

structure SplitLine where
  share : ShareSpec
  category : CategoryId
  memoTemplate : Option String := none
  personTag : Option PersonTag := none
  deriving DecidableEq

/-- The percent of a percent line. -/
def SplitLine.percent? (line : SplitLine) : Option Nat :=
  match line.share with
  | .percent s => some s.percent
  | .fixed _ => none

/-- A split template: the percent lines partition what the fixed lines leave. -/
structure ProposedSplit where
  lines : List SplitLine
  two_le : 2 ≤ lines.length
  percents_sum : (lines.filterMap SplitLine.percent?).sum = 100
  deriving DecidableEq

inductive ProposedAllocation
  | category (category : CategoryId) (personTag : Option PersonTag)
  | split (split : ProposedSplit)
  deriving DecidableEq

/-- The sum of the percents is 100, so there is a percent line to absorb the remainder. -/
theorem ProposedSplit.exists_percent (p : ProposedSplit) :
    ∃ line ∈ p.lines, ∃ s, line.share = .percent s := by
  by_contra hno
  have hnil : p.lines.filterMap SplitLine.percent? = [] := by
    rw [List.filterMap_eq_nil_iff]
    intro line hline
    cases hs : line.share with
    | percent s => exact absurd ⟨line, hline, s, hs⟩ hno
    | fixed a => simp only [SplitLine.percent?, hs]
  have hsum := p.percents_sum
  rw [hnil] at hsum
  exact absurd hsum (by decide)

/-! ## Concrete allocations -/

/-- One YNAB subtransaction. -/
structure ResolvedSplitLine where
  category : CategoryId
  amount : Money
  memo : Option String := none
  personTag : Option PersonTag := none
  deriving DecidableEq

/-- A concrete split has at least two lines. -/
structure ResolvedSplit where
  lines : List ResolvedSplitLine
  two_le : 2 ≤ lines.length
  deriving DecidableEq

/-- The sum of the line amounts, accumulated from the left. -/
def ResolvedSplit.total (split : ResolvedSplit) : Money :=
  split.lines.foldl (fun running line => running + line.amount) Money.zero

theorem foldl_add_amount (lines : List ResolvedSplitLine) (m : Money) :
    (lines.foldl (fun running line => running + line.amount) m).milliunits
      = m.milliunits + (lines.map (·.amount.milliunits)).sum := by
  induction lines generalizing m with
  | nil => simp
  | cons line lines ih =>
    rw [List.foldl_cons, ih, List.map_cons, List.sum_cons, Money.add_milliunits]
    omega

theorem ResolvedSplit.total_milliunits (split : ResolvedSplit) :
    split.total.milliunits = (split.lines.map (·.amount.milliunits)).sum := by
  unfold ResolvedSplit.total
  rw [foldl_add_amount, Money.zero_milliunits, Int.zero_add]

inductive ResolvedAllocation
  | category (category : CategoryId) (personTag : Option PersonTag)
  | split (split : ResolvedSplit)
  deriving DecidableEq

end YnabAgent
