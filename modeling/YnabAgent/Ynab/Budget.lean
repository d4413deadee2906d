import YnabAgent.Budget.Overspend
import YnabAgent.Lib.Basic
import YnabAgent.Ynab.Client
import Mathlib.Algebra.Order.BigOperators.Group.List
import Mathlib.Algebra.Order.Group.Int

/-!
# Reading the budget

The categories of the month and the scheduled transactions as YNAB returns them, and what the client
makes of them (`ynab/wire.py`, `ynab/client.py`). The day of a scheduled transaction is taken as
parsed.
-/

namespace YnabAgent

structure WireCategory where
  id : String
  name : String
  budgeted : Int
  activity : Int
  balance : Int
  deleted : Bool := false
  hidden : Bool := false
  deriving DecidableEq

structure WireCategoryGroup where
  id : String
  name : String
  hidden : Bool := false
  deleted : Bool := false
  categories : List WireCategory := []
  deriving DecidableEq

structure WireScheduledSubtransaction where
  amount : Int
  categoryId : Option String := none
  deleted : Bool := false
  deriving DecidableEq

structure WireScheduledTransaction where
  dateNext : Date
  amount : Int
  categoryId : Option String := none
  deleted : Bool := false
  subtransactions : List WireScheduledSubtransaction := []
  deriving DecidableEq

/-- The built-in groups that are never discretionary. -/
def excludedGroups : List String := ["Internal Master Category", "Credit Card Payments"]

/-- The live, discretionary categories. -/
def userFacingCategories (groups : List WireCategoryGroup) : List WireCategory :=
  (groups.filter fun group =>
    !group.deleted && !group.hidden && decide (group.name ∉ excludedGroups)).flatMap fun group =>
      group.categories.filter fun category => !category.deleted && !category.hidden

/-- The figures of a category; what is scheduled is merged by the monitor. -/
def toCategorySpend (wire : WireCategory) : CategorySpend :=
  { category := wire.id, name := wire.name, budgeted := ⟨wire.budgeted⟩, activity := ⟨wire.activity⟩
    balance := ⟨wire.balance⟩ }

/-- `category_spends`: the figures of every live category. -/
def categorySpends (groups : List WireCategoryGroup) : List CategorySpend :=
  (userFacingCategories groups).map toCategorySpend

/-- The lines of a scheduled transaction that have a category. -/
def scheduledLines (txn : WireScheduledTransaction) : List (CategoryId × Int) :=
  if txn.subtransactions ≠ [] then
    txn.subtransactions.filterMap fun sub =>
      if sub.deleted then none
      else (presentText sub.categoryId).map fun category => (category, sub.amount)
  else ((presentText txn.categoryId).map fun category => (category, txn.amount)).toList

/-- The outflow lines due in the window, by category, as magnitudes. -/
def dueOutflows (scheduled : List WireScheduledTransaction) (today monthEnd : Date) :
    List (CategoryId × Int) :=
  (scheduled.filter fun txn =>
    !txn.deleted && decide (today ≤ txn.dateNext ∧ txn.dateNext ≤ monthEnd)).flatMap fun txn =>
      (scheduledLines txn).filterMap fun line =>
        if 0 ≤ line.2 then none else some (line.1, -line.2)

/-- The scheduled outflow of each category in the window; none for a category without a line. -/
def scheduledRemaining (scheduled : List WireScheduledTransaction) (today monthEnd : Date)
    (category : CategoryId) : Option Money :=
  match (dueOutflows scheduled today monthEnd).filter fun line => line.1 = category with
  | [] => none
  | lines => some ⟨(lines.map Prod.snd).sum⟩

/-- What is scheduled is an outflow: the figures it is merged into never take it for an inflow. -/
theorem scheduledRemaining_nonneg (scheduled : List WireScheduledTransaction)
    (today monthEnd : Date) (category : CategoryId) :
    0 ≤ ((scheduledRemaining scheduled today monthEnd category).getD Money.zero).milliunits := by
  unfold scheduledRemaining
  split
  · exact Int.le_refl 0
  · rename_i lines _
    apply List.sum_nonneg
    intro x hx
    obtain ⟨line, hline, rfl⟩ := List.mem_map.1 hx
    have hmem := List.mem_of_mem_filter hline
    unfold dueOutflows at hmem
    obtain ⟨txn, -, hmem⟩ := List.mem_flatMap.1 hmem
    obtain ⟨line', -, hsome⟩ := List.mem_filterMap.1 hmem
    split at hsome
    · cases hsome
    · cases hsome
      omega

end YnabAgent
