import YnabAgent.Domain.Values
import YnabAgent.Lib.FloorAverage

/-!
# The overspend monitor's projection

A category's month-end spend is projected by a blend of its burn rate and its own plan, and ranked
against what it has available (`budget/overspend.py`). What the budgeted amount and the day of the
month do to the projection is read off the blend: `remaining_raised_le` and `le_remaining_raised`
(money moved to or from a category), `projected_le_add_one` (a later day).
-/

namespace YnabAgent

/-- A category's figures of the month, in YNAB's signs; `balance` is what it has available. -/
structure CategorySpend where
  category : CategoryId
  name : String
  budgeted : Money
  activity : Money
  balance : Money
  scheduledRemaining : Money := Money.zero
  deriving DecidableEq

/-- The shortest and the longest month. -/
def minMonthDays : Int := 28

def maxMonthDays : Int := 31

/-- Where in the month we are. -/
structure MonthClock where
  dayOfMonth : Int
  daysInMonth : Int
  one_le : 1 ≤ dayOfMonth
  min_le : minMonthDays ≤ daysInMonth
  le_max : daysInMonth ≤ maxMonthDays
  within : dayOfMonth ≤ daysInMonth
  deriving DecidableEq

theorem MonthClock.days_pos (clock : MonthClock) : 0 < clock.daysInMonth := by
  have hmin := clock.min_le
  unfold minMonthDays at hmin
  omega

inductive OverspendVerdict
  | ok | trendingOver | alreadyOver
  deriving DecidableEq, Repr

def OverspendVerdict.value : OverspendVerdict → String
  | .ok => "ok"
  | .trendingOver => "trending_over"
  | .alreadyOver => "already_over"

structure OverspendPolicy where
  trendThreshold : Money := Money.ofUnits 25

def defaultOverspendPolicy : OverspendPolicy := {}

structure OverspendAssessment where
  category : CategoryId
  name : String
  verdict : OverspendVerdict
  budgeted : Money
  spent : Money
  projected : Money
  available : Money
  deriving DecidableEq

/-- The last alert raised for a category in a period. -/
structure PriorAlert where
  verdict : OverspendVerdict
  projected : Money
  deriving DecidableEq

/-- What was spent this month; nothing where the activity is an inflow. -/
def spentMagnitude (category : CategorySpend) : Money :=
  if category.activity < Money.zero then -category.activity else Money.zero

/-- The burn rate, floored. -/
def runRate (category : CategorySpend) (clock : MonthClock) : Int :=
  (spentMagnitude category).milliunits * clock.daysInMonth / clock.dayOfMonth

/-- The plan view: the budget, or the spend where it is past the budget. -/
def anchor (category : CategorySpend) : Int :=
  max category.budgeted.milliunits (spentMagnitude category).milliunits

/-- The blend of burn and plan: the burn early in the month trusted little, late much. -/
def blend (category : CategorySpend) (clock : MonthClock) : Int :=
  Lib.floorAverage clock.daysInMonth clock.dayOfMonth (runRate category clock) (anchor category)

/-- The month-end spend: the blend, and what is scheduled at full size. -/
def projectSpend (category : CategorySpend) (clock : MonthClock) : Money :=
  let spent := spentMagnitude category
  let scheduled := category.scheduledRemaining
  let projected := ⟨blend category clock⟩ + scheduled
  let floor := spent + scheduled
  if floor < projected then projected else floor

def assess (category : CategorySpend) (clock : MonthClock)
    (policy : OverspendPolicy := defaultOverspendPolicy) : OverspendAssessment :=
  let spent := spentMagnitude category
  let projected := projectSpend category clock
  let available := category.balance
  let projectedRemaining := projected - spent
  { category := category.category
    name := category.name
    verdict :=
      if available < Money.zero then .alreadyOver
      else if policy.trendThreshold < projectedRemaining - available then .trendingOver
      else .ok
    budgeted := category.budgeted
    spent
    projected
    available }

/-- Whether to raise an alert, given the last one of the period. -/
def shouldAlert (assessment : OverspendAssessment) (prior : Option PriorAlert)
    (policy : OverspendPolicy := defaultOverspendPolicy) : Bool :=
  if assessment.verdict = .ok then false
  else
    match prior with
    | none => true
    | some prior =>
      let escalated := assessment.verdict = .alreadyOver ∧ prior.verdict ≠ .alreadyOver
      let worsened := policy.trendThreshold < assessment.projected - prior.projected
      decide (escalated ∨ worsened)

/-! ## The projection -/

section projection
variable (category : CategorySpend) (clock : MonthClock)

theorem spentMagnitude_nonneg : 0 ≤ (spentMagnitude category).milliunits := by
  unfold spentMagnitude
  split
  · rename_i h
    rw [Money.lt_iff, Money.zero_milliunits] at h
    rw [Money.neg_milliunits]
    omega
  · exact Int.le_refl 0

/-- The burn rate is no less than the spend so far. -/
theorem spent_le_runRate : (spentMagnitude category).milliunits ≤ runRate category clock := by
  unfold runRate
  have hday := clock.one_le
  rw [Int.le_ediv_iff_mul_le (by omega)]
  exact Int.mul_le_mul_of_nonneg_left clock.within (spentMagnitude_nonneg category)

theorem spent_le_blend : (spentMagnitude category).milliunits ≤ blend category clock := by
  have hday := clock.one_le
  exact Lib.le_floorAverage clock.days_pos (by omega) clock.within
    (spent_le_runRate category clock) (Int.le_max_right _ _)

/-- The floor of the projection never binds: the blend covers the spend so far. -/
theorem projectSpend_milliunits : (projectSpend category clock).milliunits =
    blend category clock + category.scheduledRemaining.milliunits := by
  have hspent := spent_le_blend category clock
  unfold projectSpend
  simp only
  split
  · rfl
  · rename_i hfloor
    simp only [Money.lt_iff, Money.add_milliunits] at hfloor ⊢
    omega

/-- What the category is projected to spend from today on. -/
def CategorySpend.remaining : Int :=
  (projectSpend category clock).milliunits - (spentMagnitude category).milliunits

theorem scheduled_le_remaining :
    category.scheduledRemaining.milliunits ≤ category.remaining clock := by
  have hspent := spent_le_blend category clock
  unfold CategorySpend.remaining
  rw [projectSpend_milliunits]
  omega

theorem assess_verdict_eq_ok_iff {policy : OverspendPolicy} :
    (assess category clock policy).verdict = .ok ↔ 0 ≤ category.balance.milliunits ∧
      category.remaining clock - category.balance.milliunits ≤
        policy.trendThreshold.milliunits := by
  unfold assess CategorySpend.remaining
  simp only [Money.lt_iff, Money.sub_milliunits, Money.zero_milliunits]
  split
  · rename_i hover
    constructor
    · intro h; cases h
    · rintro ⟨h, -⟩; omega
  · split
    · rename_i htrending
      constructor
      · intro h; cases h
      · rintro ⟨-, h⟩; omega
    · constructor
      · intro _; omega
      · intro _; rfl

theorem assess_verdict_eq_alreadyOver_iff {policy : OverspendPolicy} :
    (assess category clock policy).verdict = .alreadyOver ↔ category.balance.milliunits < 0 := by
  unfold assess
  simp only [Money.lt_iff, Money.zero_milliunits]
  split
  · rename_i hover; simpa using hover
  · rename_i hover
    split
    · simpa using hover
    · simpa using hover

end projection

/-! ## Money moved -/

/-- The figures after money is assigned: the budgeted amount and the balance rise by it. -/
def CategorySpend.raised (category : CategorySpend) (k : Int) : CategorySpend :=
  { category with
    budgeted := category.budgeted + ⟨k⟩
    balance := category.balance + ⟨k⟩ }

section moved
variable (category : CategorySpend) (clock : MonthClock) (k : Int)

@[simp] theorem CategorySpend.raised_balance :
    (category.raised k).balance.milliunits = category.balance.milliunits + k := rfl

@[simp] theorem CategorySpend.raised_scheduled :
    (category.raised k).scheduledRemaining = category.scheduledRemaining := rfl

@[simp] theorem spentMagnitude_raised :
    spentMagnitude (category.raised k) = spentMagnitude category := rfl

@[simp] theorem runRate_raised : runRate (category.raised k) clock = runRate category clock := rfl

/-- How far the plan view rises with the budgeted amount. -/
def CategorySpend.rise : Int :=
  anchor (category.raised k) - anchor category

variable {k}

theorem CategorySpend.rise_bounds (hk : 0 ≤ k) :
    0 ≤ category.rise k ∧ category.rise k ≤ k := by
  unfold CategorySpend.rise anchor CategorySpend.raised
  simp only [Money.add_milliunits]
  change _ ≤ max _ (spentMagnitude category).milliunits - _ ∧
    max _ (spentMagnitude category).milliunits - _ ≤ _
  omega

theorem blend_raised : blend (category.raised k) clock = Lib.floorAverage clock.daysInMonth
    clock.dayOfMonth (runRate category clock) (anchor category + category.rise k) := by
  unfold blend CategorySpend.rise
  rw [runRate_raised]
  congr 1
  omega

theorem remaining_raised : (category.raised k).remaining clock =
    category.remaining clock + (blend (category.raised k) clock - blend category clock) := by
  unfold CategorySpend.remaining
  rw [projectSpend_milliunits, projectSpend_milliunits, spentMagnitude_raised,
    CategorySpend.raised_scheduled]
  omega

/-- Money assigned never lowers what a category is projected to spend. -/
theorem le_remaining_raised (hk : 0 ≤ k) :
    category.remaining clock ≤ (category.raised k).remaining clock := by
  have hrise := (category.rise_bounds hk).1
  have hmono : blend category clock ≤ blend (category.raised k) clock := by
    rw [blend_raised]
    exact Lib.floorAverage_mono clock.days_pos clock.within (by omega)
  rw [remaining_raised]
  omega

/-- And raises it by no more than itself. -/
theorem remaining_raised_le (hk : 0 ≤ k) :
    (category.raised k).remaining clock ≤ category.remaining clock + k := by
  have hday := clock.one_le
  obtain ⟨hrise, hle⟩ := category.rise_bounds hk
  have hadd : blend (category.raised k) clock ≤ blend category clock + category.rise k := by
    rw [blend_raised]
    exact Lib.floorAverage_add_le clock.days_pos (by omega) hrise
  rw [remaining_raised]
  omega

theorem CategorySpend.raised_raised (category : CategorySpend) (k m : Int) :
    (category.raised k).raised m = category.raised (k + m) := by
  unfold CategorySpend.raised
  simp only [CategorySpend.mk.injEq, true_and, and_true]
  exact ⟨Money.ext_milliunits (by simp only [Money.add_milliunits]; omega),
    Money.ext_milliunits (by simp only [Money.add_milliunits]; omega)⟩

/-- Money taken lowers it, if it changes it at all. -/
theorem remaining_lowered_le (hk : 0 ≤ k) :
    (category.raised (-k)).remaining clock ≤ category.remaining clock := by
  have h := le_remaining_raised (category.raised (-k)) clock hk
  rw [CategorySpend.raised_raised, Int.add_left_neg] at h
  have hzero : category.raised 0 = category := by
    unfold CategorySpend.raised
    cases category
    simp only [CategorySpend.mk.injEq, true_and, and_true]
    exact ⟨Money.ext_milliunits (Int.add_zero _), Money.ext_milliunits (Int.add_zero _)⟩
  rwa [hzero] at h

end moved

/-! ## A later day -/

/-- On a later day of the month the projection of the same figures is at most a milliunit higher. -/
theorem projected_le_add_one (category : CategorySpend) {clock clock' : MonthClock}
    (hdays : clock'.daysInMonth = clock.daysInMonth)
    (hlater : clock.dayOfMonth ≤ clock'.dayOfMonth) :
    (projectSpend category clock').milliunits ≤ (projectSpend category clock).milliunits + 1 := by
  rw [projectSpend_milliunits, projectSpend_milliunits]
  suffices h : blend category clock' ≤ blend category clock + 1 by omega
  have hday := clock.one_le
  have hwithin := clock.within
  have hday' := clock'.one_le
  unfold blend Lib.floorAverage runRate
  rw [hdays]
  generalize (spentMagnitude category).milliunits * clock.daysInMonth = total
  have hanchor : 0 ≤ anchor category :=
    Int.le_trans (spentMagnitude_nonneg category) (Int.le_max_right _ _)
  have hlate := Lib.mul_ediv_le (t := total) (d := clock'.dayOfMonth) (by omega)
  have hearly := Lib.lt_mul_ediv (t := total) (d := clock.dayOfMonth) (by omega)
  -- the plan weighs less on the later day, and the burn gains less than a day of rounding
  have hplan : (clock.daysInMonth - clock'.dayOfMonth) * anchor category ≤
      (clock.daysInMonth - clock.dayOfMonth) * anchor category :=
    Int.mul_le_mul_of_nonneg_right (by omega) hanchor
  calc (clock'.dayOfMonth * (total / clock'.dayOfMonth) +
          (clock.daysInMonth - clock'.dayOfMonth) * anchor category) / clock.daysInMonth
      ≤ (clock.dayOfMonth * (total / clock.dayOfMonth) +
          (clock.daysInMonth - clock.dayOfMonth) * anchor category + 1 * clock.daysInMonth) /
            clock.daysInMonth := Int.ediv_le_ediv clock.days_pos (by omega)
    _ = (clock.dayOfMonth * (total / clock.dayOfMonth) +
          (clock.daysInMonth - clock.dayOfMonth) * anchor category) / clock.daysInMonth + 1 :=
        Int.add_mul_ediv_right _ _ (by omega)

end YnabAgent
