import YnabAgent.Budget.Overspend
import YnabAgent.Lib.Basic
import YnabAgent.Policy.Floor
import Mathlib.Data.List.Sort
import Mathlib.Logic.Function.Basic
import Mathlib.Algebra.BigOperators.Group.List.Basic
import Mathlib.Algebra.Ring.Int.Defs

/-!
# The budget balancer

Money is moved between categories to cover those that fall short (`budget/balance.py`): the greedy
plan over a pool of donors, the needs and the pool as the figures give them, the check of a plan
before it is applied, and the amounts it sets.
-/

namespace YnabAgent

/-- Where to pull from first. -/
inductive SourcePriority
  | readyToAssign | buffer | overfunded
  deriving DecidableEq, Repr

def SourcePriority.value : SourcePriority → Nat
  | .readyToAssign => 0
  | .buffer => 1
  | .overfunded => 2

/-- A category short by an amount. -/
structure Need where
  category : CategoryId
  shortfall : Money
  deriving DecidableEq

def Need.isMet (need : Need) : Bool :=
  decide (need.shortfall ≤ Money.zero)

/-- A bucket money can be pulled from; `slack` is what it can spare. -/
structure Source where
  category : CategoryId
  available : Money
  priority : SourcePriority
  slack : Option Money := none
  projection : Money := Money.zero
  deriving DecidableEq

def Source.drawable (source : Source) : Money :=
  source.slack.getD source.available

structure BudgetMove where
  source : CategoryId
  destination : CategoryId
  amount : Money
  deriving DecidableEq

structure CoveragePlan where
  moves : List BudgetMove
  uncovered : List Need
  deriving DecidableEq

def CoveragePlan.fullyCovered (plan : CoveragePlan) : Bool :=
  plan.uncovered.isEmpty

/-! ## The greedy plan -/

/-- The smaller of what is available and wanted. -/
def takeOf (available wanted : Money) : Money :=
  if available < wanted then available else wanted

/-- What is left of a source and of a need, and the moves made. -/
structure Draw where
  moves : List BudgetMove
  remaining : Money
  shortfall : Money

/-- Draw from one source in moves under the ceiling, until it is drained or the need is met. Each
move takes a milliunit at least, so the shortfall bounds their number. -/
def drawSource (policy : FloorPolicy) (source destination : CategoryId) :
    Nat → Money → Money → Draw
  | 0, available, shortfall => ⟨[], available, shortfall⟩
  | fuel + 1, available, shortfall =>
    if Money.zero < shortfall ∧ Money.zero < available then
      let take := takeOf (takeOf available shortfall) policy.perMoveCeiling
      if take ≤ Money.zero then ⟨[], available, shortfall⟩
      else
        let rest := drawSource policy source destination fuel (available - take) (shortfall - take)
        { rest with moves := ⟨source, destination, take⟩ :: rest.moves }
    else ⟨[], available, shortfall⟩

/-- What is left of the sources and of a need, and the moves made. -/
structure Covering where
  moves : List BudgetMove
  remaining : CategoryId → Money
  shortfall : Money

/-- Cover one need from the sources in order. -/
def coverNeed (policy : FloorPolicy) (destination : CategoryId) :
    List Source → (CategoryId → Money) → Money → Covering
  | [], remaining, shortfall => ⟨[], remaining, shortfall⟩
  | source :: sources, remaining, shortfall =>
    if shortfall ≤ Money.zero then ⟨[], remaining, shortfall⟩
    else
      let drawn := drawSource policy source.category destination shortfall.milliunits.toNat
        (remaining source.category) shortfall
      let rest := coverNeed policy destination sources
        (Function.update remaining source.category drawn.remaining) drawn.shortfall
      { rest with moves := drawn.moves ++ rest.moves }

/-- Cover the needs in order; a need still short is reported. -/
def coverNeeds (policy : FloorPolicy) (ordered : List Source) :
    List Need → (CategoryId → Money) → CoveragePlan
  | [], _ => ⟨[], []⟩
  | need :: needs, remaining =>
    let covered := coverNeed policy need.category ordered remaining need.shortfall
    let rest := coverNeeds policy ordered needs covered.remaining
    { moves := covered.moves ++ rest.moves
      uncovered :=
        if Money.zero < covered.shortfall then ⟨need.category, covered.shortfall⟩ :: rest.uncovered
        else rest.uncovered }

/-- The order of the sort keys `(priority, -drawable)`. -/
def sourceLe (a b : Source) : Prop :=
  a.priority.value < b.priority.value ∨
    a.priority.value = b.priority.value ∧ b.drawable ≤ a.drawable

instance : DecidableRel sourceLe := fun a b => by unfold sourceLe; infer_instance

/-- The sources in the order they are drained. -/
def drainOrder (sources : List Source) : List Source :=
  sources.insertionSort sourceLe

/-- What may be drawn of each source; of several under a category, the last. -/
def drawables (sources : List Source) (category : CategoryId) : Money :=
  (Lib.dict (sources.map fun source => (source.category, source.drawable)) category).getD Money.zero

def planCoverage (needs : List Need) (sources : List Source)
    (policy : FloorPolicy := cautiousFloor) : CoveragePlan :=
  coverNeeds policy (drainOrder sources) needs (drawables sources)

/-! ## Needs and donors -/

/-- Ready-to-Assign as a source; it is no category, and a move from it writes no source. -/
def readyToAssignSource : CategoryId := "@ready-to-assign"

def needFromAssessment (assessment : OverspendAssessment) : Need :=
  let projectedRemaining := assessment.projected - assessment.spent
  let shortfall := projectedRemaining - assessment.available
  { category := assessment.category
    shortfall := if shortfall < Money.zero then Money.zero else shortfall }

/-- The order of the sort keys `(-shortfall, category)`. -/
def needLe (a b : Need) : Prop :=
  b.shortfall < a.shortfall ∨ a.shortfall = b.shortfall ∧ a.category ≤ b.category

instance : DecidableRel needLe := fun a b => by unfold needLe; infer_instance

/-- The needs of a pass, the biggest shortfall first. -/
def needsFromAssessments (assessments : List OverspendAssessment) : List Need :=
  ((assessments.map needFromAssessment).filter fun need => !need.isMet).insertionSort needLe

/-- What a donor can spare past its own projected spend, and the projection. -/
def donorSlack (spend : CategorySpend) (clock : MonthClock) : Money × Money :=
  let projection := projectSpend spend clock
  let remaining := projection - spentMagnitude spend
  let slack := spend.balance - remaining
  (if slack < Money.zero then Money.zero else slack, projection)

/-- The donor a category makes. -/
def donorOf (spend : CategorySpend) (clock : MonthClock) : Source :=
  let (slack, projection) := donorSlack spend clock
  { category := spend.category, available := spend.balance, priority := .overfunded
    slack := some slack, projection }

/-- The buckets the balancer may pull from: Ready-to-Assign where there is any, and the categories
with something to spare that are not excluded. -/
def sourcesFromSpends (spends : List CategorySpend) (readyToAssign : Money)
    (exclude : List CategoryId) (clock : MonthClock) : List Source :=
  let lead : List Source :=
    if Money.zero < readyToAssign then
      [{ category := readyToAssignSource, available := readyToAssign, priority := .readyToAssign
         slack := some readyToAssign }]
    else []
  lead ++ (spends.filter fun spend =>
    decide (spend.category ∉ exclude) && !decide ((donorSlack spend clock).1 ≤ Money.zero)).map
      fun spend => donorOf spend clock

/-! ## The offer -/

/-- A donor's name and the slack it has. -/
structure SourceView where
  category : CategoryId
  name : String
  slack : Money
  deriving DecidableEq

/-- A move, named for rendering. -/
structure CoverageLine where
  amount : Money
  destination : String
  source : String
  deriving DecidableEq

/-- One plan for a whole pass, and what it is rendered from. -/
structure CoordinatedOffer where
  moves : List BudgetMove := []
  lines : List CoverageLine := []
  sources : List SourceView := []
  uncovered : List String := []
  deriving DecidableEq

/-! ## Checking and applying a plan -/

inductive OptionRejection
  | empty | wrongDestination | overCeiling | insufficientSource | slack | doesNotCover
  deriving DecidableEq, Repr

/-- What the moves pull from a source in total. -/
def pulled (moves : List BudgetMove) (source : CategoryId) : Money :=
  ⟨((moves.filter fun move => move.source = source).map fun move => move.amount.milliunits).sum⟩

/-- The protected limit of a source: its slack, else its funds. -/
def slackLimit (source : CategoryId) (available : CategoryId → Option Money)
    (slack : Option (CategoryId → Option Money)) : Money :=
  let fallback := (available source).getD Money.zero
  match slack with
  | none => fallback
  | some slack => (slack source).getD fallback

def checkMoves (moves : List BudgetMove) (available : CategoryId → Option Money)
    (policy : FloorPolicy := cautiousFloor) (slack : Option (CategoryId → Option Money) := none) :
    Option OptionRejection :=
  if moves = [] then some .empty
  else
    (moves.findSome? fun move =>
      if move.amount ≤ Money.zero then some .empty
      else if policy.perMoveCeiling < move.amount.abs then some .overCeiling
      else none).or
    ((moves.map BudgetMove.source).eraseDups.findSome? fun source =>
      if (available source).getD Money.zero < pulled moves source then some .insufficientSource
      else if slackLimit source available slack < pulled moves source then some .slack
      else none)

/-- The net change of a category under the moves; a pull from Ready-to-Assign is no change. -/
def netChange (moves : List BudgetMove) (category : CategoryId) : Money :=
  ⟨(moves.map fun move =>
    (if move.destination = category then move.amount.milliunits else 0) -
      if move.source = category ∧ move.source ≠ readyToAssignSource then move.amount.milliunits
      else 0).sum⟩

/-- The categories the moves raise or lower, in the order they come up. -/
def touched (moves : List BudgetMove) : List CategoryId :=
  (moves.flatMap fun move =>
    move.destination :: if move.source ≠ readyToAssignSource then [move.source] else []).eraseDups

/-- A look-up of a key that is not there. -/
structure KeyError where
  key : CategoryId
  deriving DecidableEq, Repr

/-- The amount each category is to be set to; a category without a change drops out. -/
def moveTargets (moves : List BudgetMove) (currentBudgeted : CategoryId → Option Money) :
    Except KeyError (List (CategoryId × Money)) :=
  ((touched moves).filter fun category => (netChange moves category).milliunits ≠ 0).mapM
    fun category =>
      match currentBudgeted category with
      | some budgeted => .ok (category, budgeted + netChange moves category)
      | none => .error ⟨category⟩

end YnabAgent
